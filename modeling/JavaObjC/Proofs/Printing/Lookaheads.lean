import JavaObjC.Proofs.Printing.Exactness

/-!
# Lookaheads in front of an expression

Before an expression is read, two lookaheads decide whether a lambda or a cast
follows. The first one needs an arrow. The second one passes over a name, over
what looks like type arguments, and over further names behind ampersands, so
that a comparison can take it far beyond the closing parenthesis. What it can
pass over is described by a relation on tokens, and tokens are calm if no
search for a closing angle bracket ends in front of a token that would let the
lookahead go on.
-/

namespace JavaObjC

open Cursor Grammar JavaObjC.Parser

/-- Tokens with which a lookahead for a cast goes on after a name. -/
def castMarks : List TokenKind :=
  [Symbol.rparen, Symbol.bitAnd, Symbol.dot, Symbol.lt, Symbol.lbracket]

/-- The tokens left by a search for the end of `depth` open angle brackets. -/
def pastClosing (depth : Int) (ts : List Token) : List Token := (skipAngles depth [] ts).2

/-- Skipping angles stops behind the closing ones. -/
theorem skipAngles_snd (depth : Int) (consumed ts : List Token) :
    (skipAngles depth consumed ts).2 = pastClosing depth ts := by
  have hany (ts : List Token) : ∀ depth first second,
      (skipAngles depth first ts).2 = (skipAngles depth second ts).2 := by
    induction ts with
    | nil => exact fun _ _ _ => rfl
    | cons t ts ih =>
      intro depth first second
      simp only [skipAngles]
      split
      · rfl
      · split
        · rfl
        · exact ih _ _ _
  exact hany ts depth consumed []

/-- Where no angle is open the search is at its end. -/
theorem pastClosing_of_nonpos {depth : Int} (h : depth ≤ 0) (ts : List Token) :
    pastClosing depth ts = ts := by
  cases ts with
  | nil => rfl
  | cons t ts => rw [pastClosing, skipAngles, if_pos (Or.inl h)]

/-- The search passes a token and counts the angles it opens or closes. -/
theorem pastClosing_cons {depth change : Int} {t : Token} (ts : List Token) (hdepth : 1 ≤ depth)
    (heof : t.kind ≠ .eof) (hchange : angleChange? t.kind = some change) :
    pastClosing depth (t :: ts) = pastClosing (depth + change) ts := by
  rw [pastClosing, skipAngles, if_neg (by simp only [heof, or_false]; omega), hchange]
  exact skipAngles_snd _ _ _

/-- Kinds that a search for closing angle brackets passes without closing one. -/
def passable (kind : TokenKind) : Bool :=
  kind != Symbol.arrow && kind != .eof && (angleChange? kind).any (0 ≤ ·)

/-- Kinds that close angle brackets. -/
def closingAngles : List TokenKind := [Symbol.gt, Symbol.shr, Symbol.ushr]

/-- Kinds that a search for closing angle brackets does not pass. -/
def barriers : List TokenKind := [Symbol.semicolon, Symbol.lbrace, Symbol.rbrace, .eof]

/-- Tokens without an arrow, in which no search for a closing angle bracket ends in front of
a token with which a lookahead for a cast goes on. -/
structure Calm (ts : List Token) : Prop where
  arrowless : ∀ t ∈ ts, t.kind ≠ Symbol.arrow
  guarded : ∀ depth : Int, 1 ≤ depth → ∀ t ∈ (pastClosing depth ts).head?, t.kind ∉ castMarks

namespace Calm

variable {t : Token} {ts : List Token}

theorem nil : Calm [] where
  arrowless := by simp
  guarded := by simp [pastClosing, skipAngles]

/-- A token that is no arrow in front of calm ones adds no arrow. -/
theorem arrowless_cons (h : Calm ts) (harrow : t.kind ≠ Symbol.arrow) :
    ∀ u ∈ t :: ts, u.kind ≠ Symbol.arrow := by
  intro u hu
  rcases List.mem_cons.1 hu with rfl | hu
  · exact harrow
  · exact h.arrowless u hu

/-- A token that the search passes keeps calm what follows it. -/
theorem cons (h : Calm ts) (ht : passable t.kind = true) : Calm (t :: ts) := by
  simp only [passable, Bool.and_eq_true, bne_iff_ne, Option.any_eq_true, decide_eq_true_eq] at ht
  obtain ⟨⟨harrow, heof⟩, change, hchange, hopen⟩ := ht
  refine ⟨h.arrowless_cons harrow, fun depth hdepth => ?_⟩
  rw [pastClosing_cons ts hdepth heof hchange]
  exact h.guarded (depth + change) (by omega)

/-- A closing angle bracket with a harmless token after it. -/
theorem cons_closing (h : Calm ts) (ht : t.kind ∈ closingAngles)
    (hnext : ∀ u ∈ ts.head?, u.kind ∉ castMarks) : Calm (t :: ts) := by
  have hkind : t.kind ≠ Symbol.arrow ∧ t.kind ≠ .eof ∧ (angleChange? t.kind).isSome = true :=
    (by decide : ∀ k ∈ closingAngles, k ≠ Symbol.arrow ∧ k ≠ .eof ∧ (angleChange? k).isSome = true)
      t.kind ht
  obtain ⟨change, hchange⟩ := Option.isSome_iff_exists.1 hkind.2.2
  refine ⟨h.arrowless_cons hkind.1, fun depth hdepth => ?_⟩
  rw [pastClosing_cons ts hdepth hkind.2.1 hchange]
  by_cases hopen : 1 ≤ depth + change
  · exact h.guarded (depth + change) hopen
  · rw [pastClosing_of_nonpos (by omega)]
    exact hnext

/-- A token that ends the search keeps calm what follows it. -/
theorem cons_barrier (h : Calm ts) (ht : t.kind ∈ barriers) : Calm (t :: ts) := by
  have hkind : t.kind ≠ Symbol.arrow ∧ t.kind ∉ castMarks ∧
      (t.kind = .eof ∨ angleChange? t.kind = none) :=
    (by decide : ∀ k ∈ barriers, k ≠ Symbol.arrow ∧ k ∉ castMarks ∧
      (k = .eof ∨ angleChange? k = none)) t.kind ht
  refine ⟨h.arrowless_cons hkind.1, fun depth _ u hu => ?_⟩
  have hhere : pastClosing depth (t :: ts) = t :: ts := by
    rw [pastClosing, skipAngles]
    rcases hkind.2.2 with heof | hnone
    · rw [if_pos (Or.inr heof)]
    · split
      · rfl
      · rw [hnone]
  rw [hhere] at hu
  obtain rfl : t = u := by simpa using hu
  exact hkind.2.1

end Calm

/-- Tokens after a name over which a lookahead for a cast can pass with success. -/
inductive CastTail : List Token → Prop where
  | close {t u : Token} {ts : List Token} (ht : t.kind = Symbol.rparen)
      (hu : u.kind ∈ castOperandStarts) : CastTail (t :: u :: ts)
  | bound {t u : Token} {ts : List Token} (ht : t.kind = Symbol.bitAnd) (h : CastTail ts) :
      CastTail (t :: u :: ts)
  | part {t u : Token} {ts : List Token} (ht : t.kind = Symbol.dot) (hu : u.kind = .identifier)
      (h : CastTail ts) : CastTail (t :: u :: ts)
  | angles {t : Token} {ts : List Token} (ht : t.kind = Symbol.lt)
      (h : CastTail (pastClosing 1 ts)) : CastTail (t :: ts)
  | brackets {t u : Token} {ts : List Token} (ht : t.kind = Symbol.lbracket)
      (hu : u.kind = Symbol.rbracket) (h : CastTail ts) : CastTail (t :: u :: ts)

namespace CastTail

/-- The rest of a cast begins with a mark of casts. -/
theorem mark {t : Token} {ts : List Token} (h : CastTail (t :: ts)) : t.kind ∈ castMarks := by
  cases h with
  | close ht _ => rw [ht]; decide
  | bound ht _ => rw [ht]; decide
  | part ht _ _ => rw [ht]; decide
  | angles ht _ => rw [ht]; decide
  | brackets ht _ _ => rw [ht]; decide

/-- The rest of a cast has a token. -/
theorem ne_nil {ts : List Token} (h : CastTail ts) : ts ≠ [] := by
  cases h <;> exact List.cons_ne_nil _ _

end CastTail

/-- Tokens that a lookahead can take for the front of a cast. -/
def Castlike (ts : List Token) : Prop :=
  ∃ t u rest, ts = t :: u :: rest ∧ t.kind = Symbol.lparen ∧
    (u.kind.isPrimitive = true ∨ u.kind = .identifier ∧ CastTail rest)

/-- A token of a kind other than the end of file is really there. -/
theorem rest_of_tokenAt {c : Cursor} {kind : TokenKind} (h : (c.tokenAt 0).kind = kind)
    (hk : kind ≠ .eof) : ∃ t rest, c.rest = t :: rest ∧ t.kind = kind := by
  cases hrest : c.rest with
  | nil =>
    rw [tokenAt, hrest] at h
    exact absurd h.symm hk
  | cons t rest =>
    rw [tokenAt_zero_cons hrest] at h
    exact ⟨t, rest, rfl, h⟩

/-- A parser in a lookahead for a cast, from a cursor. If the lookahead can succeed where the
parser ends, it can succeed where the parser began. -/
def Unwinds {α : Type} (c : Cursor) (p : Parser α) : Prop :=
  CastTail (p.run c).2.rest → CastTail c.rest

namespace Unwinds

variable {α β : Type} {c : Cursor}

theorem pure (a : α) : Unwinds c (Pure.pure a : Parser α) := id

/-- A search in two parts goes back through both. -/
theorem bind {p : Parser α} {f : α → Parser β} (hp : Unwinds c p)
    (hf : Unwinds (p.run c).2 (f (p.run c).1)) : Unwinds c (p >>= f) := fun h => hp (hf h)

/-- The lookahead can succeed where a part of it begins if it can where the part ends. -/
theorem bind_end {p : Parser α} {f : α → Parser Bool} (hp : Unwinds c p)
    (hf : ∀ a (c' : Cursor), ((f a).run c').1 = true → CastTail c'.rest)
    (h : ((p >>= f).run c).1 = true) : CastTail c.rest := hp (hf _ _ h)

/-- A repeated search goes back through its rounds. -/
theorem iterate {step : α → Parser (Option α)} (hstep : ∀ a (c : Cursor), Unwinds c (step a))
    (n : Nat) (a : α) (c : Cursor) : Unwinds c (Parser.iterate step n a) := by
  induction n generalizing a c with
  | zero => exact id
  | succ n ih =>
    refine bind (hstep a c) ?_
    cases ((step a).run c).1 with
    | none => exact pure a
    | some b => exact ih b _

/-- A repeated search goes back through its rounds. -/
theorem loop {step : α → Parser (Option α)} (hstep : ∀ a (c : Cursor), Unwinds c (step a))
    (a : α) (c : Cursor) : Unwinds c (Parser.loop step a) := iterate hstep _ a c

/-- A repeated search goes back through its items. -/
theorem many {test : Parser Bool} {item : Parser Node}
    (hyes : ∀ c : Cursor, (test.run c).1 = true → Unwinds c (test >>= fun _ => item))
    (hno : ∀ c : Cursor, (test.run c).1 = false → Unwinds c test) (c : Cursor) :
    Unwinds c (Parser.many test item) := by
  have hbounded (n : Nat) : ∀ c : Cursor, Unwinds c (Parser.manyUpTo test item n) := by
    induction n with
    | zero => exact fun _ => id
    | succ n ih =>
      intro c hend
      cases hanswer : (test.run c).1 with
      | true =>
        have hrun : test.run c = (true, (test.run c).2) := Prod.ext hanswer rfl
        rw [manyUpTo, bind_of_run hrun] at hend
        exact hyes c hanswer (ih _ hend)
      | false =>
        have hrun : test.run c = (false, (test.run c).2) := Prod.ext hanswer rfl
        rw [manyUpTo, bind_of_run hrun] at hend
        exact hno c hanswer hend
  exact hbounded _ c

/-- A search that may skip a token goes back over it or not. -/
theorem ifSkip {kind : TokenKind} [kind.Inner] {x y : Parser β}
    (yes : ∀ t rest, c.rest = t :: rest → t.kind = kind → CastTail (x.run c.step).2.rest →
      CastTail c.rest) (no : Unwinds c y) :
    Unwinds c (Parser.skip kind >>= fun b => if b = true then x else y) := by
  intro hend
  rw [ifSkip_run] at hend
  split at hend
  · rename_i hkind
    obtain ⟨t, rest, hrest, ht⟩ := rest_of_tokenAt hkind TokenKind.Inner.ne_eof
    exact yes t rest hrest ht hend
  · exact no hend

end Unwinds

section Scanning

variable {c : Cursor}

/-- Behind the next token is the rest. -/
theorem step_rest {t : Token} {rest : List Token} (h : c.rest = t :: rest) : c.step.rest = rest := by
  rw [step, h]

/-- Two tokens of kinds other than the end of file are really there. -/
theorem rest_of_check2 {first second : TokenKind} [first.Inner] [second.Inner]
    (h : (check2 first second).run c = (true, c)) :
    ∃ t u rest, c.rest = t :: u :: rest ∧ t.kind = first ∧ u.kind = second ∧
      c.step.step.rest = rest := by
  have hkinds := kinds_of_check2 h
  obtain ⟨t, rest, hrest, ht⟩ := rest_of_tokenAt hkinds.1 TokenKind.Inner.ne_eof
  have hnext : (c.step.tokenAt 0).kind = second := by rw [tokenAt_step]; exact hkinds.2
  obtain ⟨u, rest', hrest', hu⟩ := rest_of_tokenAt hnext TokenKind.Inner.ne_eof
  rw [step_rest hrest] at hrest'
  subst hrest'
  exact ⟨t, u, rest', hrest, ht, hu, step_rest (step_rest hrest)⟩

/-- A search over brackets ends before a cast only if it began before one. -/
theorem skipBrackets_unwinds : Unwinds c skipBrackets := by
  refine .bind (.loop (fun n c hend => ?_) 0 c) (.pure _)
  cases hanswer : ((check2 Symbol.lbracket Symbol.rbracket).run c).1 with
  | true =>
    have hrun : (check2 Symbol.lbracket Symbol.rbracket).run c = (true, c) := Prod.ext hanswer rfl
    rw [bind_of_run hrun] at hend
    obtain ⟨t, u, rest, hrest, ht, hu, hstep⟩ := rest_of_check2 hrun
    rw [hrest]
    exact .brackets ht hu (hstep ▸ hend)
  | false =>
    have hrun : (check2 Symbol.lbracket Symbol.rbracket).run c = (false, c) :=
      Prod.ext hanswer rfl
    rw [bind_of_run hrun] at hend
    exact hend

/-- A search over the parts of a name ends before a cast only if it began before one. -/
theorem nameParts_unwind (c : Cursor) :
    Unwinds c (many (check2 Symbol.dot .identifier) (advance >>= fun _ => leaf .identifier)) := by
  have hno (c : Cursor) : Unwinds c (check2 Symbol.dot .identifier) := fun hend => hend
  refine .many (fun c hanswer hend => ?_) (fun c _ => hno c) c
  have hrun : (check2 Symbol.dot .identifier).run c = (true, c) := Prod.ext hanswer rfl
  obtain ⟨t, u, rest, hrest, ht, hu, hstep⟩ := rest_of_check2 hrun
  rw [hrest]
  exact .part ht hu (hstep ▸ hend)

/-- A search over type arguments ends before a cast only if it began before one. -/
theorem skipTypeArguments_unwinds : Unwinds c skipTypeArguments := by
  refine .ifSkip (fun t rest hrest ht hend => ?_) id
  rw [hrest]
  refine .angles ht ?_
  have hpast : (pastAngles c.step).rest = pastClosing 1 rest := by
    rw [← step_rest hrest]
    exact skipAngles_snd 1 _ _
  exact hpast ▸ hend

/-- A lookahead that goes on after a name has taken a token for it. -/
theorem castTail_of_qualifiedName (h : CastTail (qualifiedName.run c).2.rest) :
    ∃ t rest, c.rest = t :: rest ∧ CastTail rest := by
  have hrun : (qualifiedName.run c).2.rest = if (c.tokenAt 0).kind.isName = true then
      ((many (check2 Symbol.dot .identifier) (advance >>= fun _ => leaf .identifier)).run
        c.step).2.rest
      else if (c.tokenAt 0).kind = .eof then c.rest else c.step.rest := by
    rw [qualifiedName, bind_of_run (rfl : here.run c = ((c.tokenAt 0).span.start, c)),
      ifCheckName_run]
    split
    · rfl
    · change (if (c.tokenAt 0).kind = .eof then c else c.step).rest = _
      split <;> rfl
  have htail : CastTail c.step.rest ∨ (c.tokenAt 0).kind = .eof ∧ CastTail c.rest := by
    rw [hrun] at h
    split at h
    · exact .inl (nameParts_unwind _ h)
    · split at h
      · rename_i heof
        exact .inr ⟨heof, h⟩
      · exact .inl h
  cases hrest : c.rest with
  | nil =>
    have hstep : c.step.rest = [] := by rw [step, hrest]
    rw [hstep, hrest] at htail
    rcases htail with htail | ⟨-, htail⟩ <;> exact absurd rfl htail.ne_nil
  | cons t rest =>
    refine ⟨t, rest, rfl, ?_⟩
    rw [step_rest hrest, hrest] at htail
    rcases htail with htail | ⟨heof, htail⟩
    · exact htail
    · rw [tokenAt_zero_cons hrest] at heof
      exact absurd (heof ▸ htail.mark) (by decide)

/-- A search over further bounds ends before a cast only if it began before one. -/
theorem bounds_unwind (c : Cursor) :
    Unwinds c (many (skip Symbol.bitAnd) (qualifiedName >>= fun bound =>
      skipTypeArguments >>= fun _ => Pure.pure bound)) := by
  refine .many (fun c hanswer hend => ?_) (fun c hanswer hend => ?_) c
  · have hkind : (c.tokenAt 0).kind = Symbol.bitAnd := by
      rw [skip_run] at hanswer
      split at hanswer
      · assumption
      · exact absurd hanswer Bool.false_ne_true
    obtain ⟨t, rest, hrest, ht⟩ := rest_of_tokenAt hkind (by decide)
    rw [bind_of_run (skip_past hrest ht)] at hend
    obtain ⟨u, rest', hrest', htail⟩ := castTail_of_qualifiedName (skipTypeArguments_unwinds hend)
    rw [hrest]
    rw [past_rest] at hrest'
    subst hrest'
    exact .bound ht htail
  · have hstay : (skip Symbol.bitAnd).run c = (false, c) := by
      rw [skip_run] at hanswer ⊢
      split at hanswer
      · exact absurd hanswer.symm Bool.false_ne_true
      · rename_i hkind
        rw [if_neg hkind]
    rw [hstay] at hend
    exact hend

/-- The end of a cast: the parenthesis and the start of an operand. -/
theorem castTail_of_end
    (h : ((skip Symbol.rparen >>= fun b =>
      if b = true then checkAny castOperandStarts else Pure.pure false).run c).1 = true) :
    CastTail c.rest := by
  rw [ifSkip_run] at h
  split at h
  · rename_i hkind
    obtain ⟨t, rest, hrest, ht⟩ := rest_of_tokenAt hkind (by decide)
    have hmem : (c.step.tokenAt 0).kind ∈ castOperandStarts := List.contains_iff_mem.1 h
    have hne : (c.step.tokenAt 0).kind ≠ .eof := ne_eof_of_mem hmem (by decide)
    obtain ⟨u, rest', hrest', hu⟩ := rest_of_tokenAt rfl hne
    rw [step_rest hrest] at hrest'
    subst hrest'
    rw [hrest]
    exact .close ht (hu ▸ hmem)
  · exact absurd h Bool.false_ne_true

/-- What stands ahead when a cast is recognized. -/
theorem castlike_of_startsCast (h : (startsCast.run c).1 = true) : Castlike c.rest := by
  rw [startsCast, lookahead] at h
  change ((skip Symbol.lparen >>= fun b => if b = true then _ else Pure.pure false).run c).1 = _ at h
  rw [ifSkip_run] at h
  split at h
  · rename_i hkind
    obtain ⟨t, rest, hrest, ht⟩ := rest_of_tokenAt hkind (by decide)
    rw [bind_of_run (rfl : (kindAt 0).run c.step = ((c.step.tokenAt 0).kind, c.step))] at h
    by_cases hprimitive : (c.step.tokenAt 0).kind.isPrimitive = true
    · obtain ⟨u, rest', hrest', hu⟩ := rest_of_tokenAt rfl (ne_eof_of_isPrimitive hprimitive)
      rw [step_rest hrest] at hrest'
      subst hrest'
      exact ⟨t, u, rest', hrest, ht, .inl (hu ▸ hprimitive)⟩
    · rw [if_neg hprimitive] at h
      by_cases hname : ((c.step.tokenAt 0).kind == .identifier) = true
      · rw [if_pos hname] at h
        -- From the end of the lookahead back to the first token of the name.
        obtain ⟨node, c', hrun⟩ : ∃ node c', qualifiedName.run c.step = (node, c') := ⟨_, _, rfl⟩
        rw [bind_of_run hrun] at h
        have hend : CastTail c'.rest :=
          skipTypeArguments_unwinds.bind_end (fun _ _ => skipBrackets_unwinds.bind_end fun _ d =>
            (bounds_unwind d).bind_end fun _ _ => castTail_of_end) h
        obtain ⟨u, rest', hrest', htail⟩ := castTail_of_qualifiedName (by rw [hrun]; exact hend)
        have hu : u.kind = .identifier := by
          rw [tokenAt_zero_cons hrest'] at hname
          exact eq_of_beq hname
        rw [step_rest hrest] at hrest'
        subst hrest'
        exact ⟨t, u, rest', hrest, ht, .inr ⟨hu, htail⟩⟩
      · rw [if_neg hname] at h
        exact absurd h Bool.false_ne_true
  · exact absurd h Bool.false_ne_true

/-- Without an arrow there is none behind a parenthesis. -/
theorem arrowAfterClosing_of_arrowless {ts : List Token} (h : ∀ t ∈ ts, t.kind ≠ Symbol.arrow)
    (depth : Nat) : arrowAfterClosing depth ts = false := by
  induction ts generalizing depth with
  | nil => rfl
  | cons t ts ih =>
    have hts := ih fun u hu => h u (List.mem_cons_of_mem t hu)
    rw [arrowAfterClosing]
    split
    · exact beq_eq_false_iff_ne.2 (h t List.mem_cons_self)
    · split
      · rfl
      · rfl
      · rfl
      · exact hts _
      · exact hts _
      · exact hts _

/-- Without an arrow no lambda follows. -/
theorem startsLambda_of_arrowless (h : ∀ t ∈ c.rest, t.kind ≠ Symbol.arrow) :
    startsLambda.run c = (false, c) := by
  refine Prod.ext ?_ (startsLambda_stays c)
  have hnext : ((c.tokenAt 1).kind == .symbol .arrow) = false := by
    rw [beq_eq_false_iff_ne, tokenAt]
    cases hget : c.rest[1]? with
    | none => decide
    | some t => exact h t (List.mem_of_getElem? hget)
  have hdrop (t : Token) (ht : t ∈ c.rest.drop 1) : t.kind ≠ Symbol.arrow :=
    h t (List.mem_of_mem_drop ht)
  change ((if ((c.tokenAt 0).kind.isName && (c.tokenAt 1).kind == .symbol .arrow) = true
    then (Pure.pure true : Parser Bool) else _).run c).1 = false
  rw [hnext, Bool.and_false, if_neg Bool.false_ne_true]
  rw [bind_of_run (rfl : (check Symbol.lparen).run c = ((c.tokenAt 0).kind == .symbol .lparen, c))]
  split
  · exact arrowAfterClosing_of_arrowless hdrop 1
  · rfl

end Scanning

end JavaObjC
