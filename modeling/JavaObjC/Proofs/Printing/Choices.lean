import JavaObjC.Proofs.Printing.Borders

/-!
# Telling declarations from expressions

Where a statement or the first clause of a `for` begins, a lookahead decides
whether a declaration follows, and another one whether the `for` goes through
a collection. Both pass over a type without reading it. On a declaration they
end at the declared name, whatever the type. On an expression that does
something they end behind a chain of names, in front of a token that is no
name, or inside the brackets of an array element, where no colon can follow.
-/

namespace JavaObjC

open Cursor Grammar JavaObjC.Parser Node

section Questions

/-- The question whether a local declaration follows, where no modifier does. -/
def declares : Parser Bool := do
  let kind ← kindAt 0
  if kind.isPrimitive then return true
  else if kind == .keyword .varKw then return (← kindAt 1).isName
  else if kind == .identifier then
    skipClassName
    skipBrackets
    checkName
  else return false

/-- The question whether the head of an enhanced `for` follows, where no modifier does. -/
def iterates : Parser Bool := do
  let kind ← kindAt 0
  if kind.isPrimitive || kind == .keyword .varKw then
    let _ ← advance
    startsEnhancedFor.variableAndColon
  else if kind == .identifier then
    let _ ← qualifiedName
    skipTypeArguments
    startsEnhancedFor.variableAndColon
  else return false

/-- A local declaration is looked for behind the modifiers. -/
theorem startsLocalDeclaration_eq (rule : Rules) :
    startsLocalDeclaration rule = lookahead (skipLocalModifiers rule >>= fun _ => declares) := rfl

/-- An enhanced loop is looked for behind the modifiers. -/
theorem startsEnhancedFor_eq (rule : Rules) :
    startsEnhancedFor rule = lookahead (skipLocalModifiers rule >>= fun _ => iterates) := rfl

/-- The search for a declaration only scans. -/
theorem declares_scans : Scans declares := by
  refine .bind (.kindAt 0) fun kind => .ite (.pure _) (.ite ?_ (.ite ?_ (.pure _)))
  · exact .bind (.kindAt 1) fun _ => .pure _
  · exact .bind skipClassName_scans fun _ => .bind skipBrackets_scans fun _ => .checkName

/-- The search for an enhanced loop only scans. -/
theorem iterates_scans : Scans iterates := by
  refine fun c => .glance (rfl : (kindAt 0).run c = ((c.tokenAt 0).kind, c)) ?_
  refine .ite (fun hkind => ?_) fun _ => .ite (fun _ => ?_) fun _ => .pure trivial
  · have hne : (c.tokenAt 0).kind ≠ .eof := by
      intro heof
      rw [heof] at hkind
      exact absurd hkind (by decide)
    exact (ScansFrom.advance hne).bind fun _ d _ _ => variableAndColon_scans d
  · have hrest : Scans (qualifiedName >>= fun _ => skipTypeArguments >>= fun _ =>
        startsEnhancedFor.variableAndColon) :=
      .bind qualifiedName_scans fun _ => .bind skipTypeArguments_scans fun _ =>
        variableAndColon_scans
    exact hrest c

variable {c : Cursor} {rule : Rules}

/-- Tokens in front of a local declaration that belong to it. -/
def localModifiers : List TokenKind := [Symbol.atSign, Keyword.finalKw]

/-- A question after no modifiers is answered without a trace. -/
theorem unmodified_run {question : Parser Bool} (hscans : Scans question)
    (hstart : Next (· ∉ localModifiers) c.rest) :
    (lookahead (skipLocalModifiers rule >>= fun _ => question)).run c =
      ((question.run c).1, c) := by
  have hskip : (skipLocalModifiers rule).run c = ((), c) := by
    have hnone : (checkAny [.symbol .atSign, .keyword .finalKw]).run c = (false, c) :=
      checkAny_no hstart
    rw [skipLocalModifiers, bind_of_run (many_none hnone)]
    rfl
  have hrun : (skipLocalModifiers rule >>= fun _ => question).run c = question.run c :=
    bind_of_run hskip
  have hback : (question.run c).2.goBack c = c := (hscans c).takes.goBack
  have hlook : (lookahead (skipLocalModifiers rule >>= fun _ => question)).run c =
      (((skipLocalModifiers rule >>= fun _ => question).run c).1,
        ((skipLocalModifiers rule >>= fun _ => question).run c).2.goBack c) := rfl
  rw [hlook, hrun, hback]

/-- Without modifiers the search for a declaration starts at once. -/
theorem startsLocalDeclaration_run (hstart : Next (· ∉ localModifiers) c.rest) :
    (startsLocalDeclaration rule).run c = ((declares.run c).1, c) := by
  rw [startsLocalDeclaration_eq]
  exact unmodified_run declares_scans hstart

/-- Without modifiers the search for an enhanced loop starts at once. -/
theorem startsEnhancedFor_run (hstart : Next (· ∉ localModifiers) c.rest) :
    (startsEnhancedFor rule).run c = ((iterates.run c).1, c) := by
  rw [startsEnhancedFor_eq]
  exact unmodified_run iterates_scans hstart

end Questions

section Declared

/-- Nothing, or type arguments that a search for their end passes exactly. -/
def Angled (ts : List Token) : Prop :=
  ts = [] ∨ ∃ t us, ts = t :: us ∧ t.kind = Symbol.lt ∧ ∀ after, pastClosing 1 (us ++ after) = after

/-- Further names behind type arguments, each with type arguments of its own. Only the last of
them can do without. -/
inductive InnerNames : List Token → Prop where
  | nil : InnerNames []
  | cons {angles ts : List Token} (dot : Token.Among [Symbol.dot]) (name : WrittenName)
      (hangles : Angled angles) (hlast : angles = [] → ts = []) (h : InnerNames ts) :
      InnerNames (dot.1 :: (name.tokens ++ (angles ++ ts)))

/-- What a search that does not read a class type finds in it: a name, type arguments, and
further names behind these. -/
structure ClassTokens where
  name : WrittenName
  angles : List Token
  inners : List Token
  angled : Angled angles
  further : InnerNames inners
  last : angles = [] → inners = []

/-- The tokens of a class type in order. -/
def ClassTokens.tokens (t : ClassTokens) : List Token := t.name.tokens ++ (t.angles ++ t.inners)

/-- A name with type arguments and no names behind these. -/
def ClassTokens.plain (name : WrittenName) {angles : List Token} (h : Angled angles) :
    ClassTokens := ⟨name, angles, [], h, .nil, fun _ => rfl⟩

/-- Tokens that close some lists end the search for their end. -/
theorem Closes.pastClosing_exact {n : Nat} {ts : List Token} (h : Closes n ts)
    (after : List Token) : pastClosing n (ts ++ after) = after := by
  induction ts generalizing n with
  | nil =>
    obtain rfl : 0 = n := h.total
    exact pastClosing_of_nonpos (Int.le_refl 0) after
  | cons t ts ih =>
    obtain ⟨m, rfl, hm⟩ := h.tail
    have hone := h.one_le_closings
    have hkind := h.angles t List.mem_cons_self
    have heof : t.kind ≠ .eof := ne_eof_of_mem hkind (by decide)
    have hchange : angleChange? t.kind = some (-(closings t.kind : Int)) :=
      (by decide : ∀ k ∈ closingAngles, angleChange? k = some (-(closings k : Int))) t.kind hkind
    have hlevel : ((closings t.kind + m : Nat) : Int) + -(closings t.kind : Int) = m := by omega
    rw [List.cons_append, pastClosing_cons (ts ++ after) (by omega) heof hchange, hlevel]
    exact ih hm

/-- Type arguments between angles are a list in angles. -/
theorem angled_arguments {n : Nat} (opening : Token.Among [Symbol.lt]) (items : OpenArguments n)
    (closing : Closing (n + 1)) : Angled (opening.1 :: (items.tokens ++ closing.1)) := by
  refine .inr ⟨opening.1, _, rfl, opening.kind_eq, fun after => ?_⟩
  have hlevel : (1 : Int) + n = ((n + 1 : Nat) : Int) := by omega
  rw [List.append_assoc, items.crosses.passes _ (Int.le_refl 1), hlevel]
  exact closing.2.pastClosing_exact after

/-- The shape of a type: a primitive word or a class type, and brackets. -/
theorem WrittenType.shape (t : WrittenType) :
    (∃ (word : Token.Among primitiveWords) (brackets : List BracketPair),
      t.tokens = word.1 :: bracketTokens brackets) ∨
    ∃ (target : ClassTokens) (brackets : List BracketPair),
      target.inners = [] ∧ t.tokens = target.tokens ++ bracketTokens brackets := by
  obtain ⟨type, closing⟩ := t
  cases type with
  | primitive word brackets =>
    refine .inl ⟨word, brackets, ?_⟩
    rw [tokens, closing.2.eq_nil, List.append_nil, OpenType.tokens]
  | named name brackets =>
    refine .inr ⟨.plain name (.inl rfl), brackets, rfl, ?_⟩
    rw [tokens, closing.2.eq_nil, List.append_nil, OpenType.tokens]
    simp [ClassTokens.tokens, ClassTokens.plain]
  | generic name opening items =>
    refine .inr ⟨.plain name (angled_arguments opening items closing), [], rfl, ?_⟩
    simp [tokens, OpenType.tokens, bracketTokens, ClassTokens.tokens, ClassTokens.plain]
  | array name opening items closing' first brackets =>
    refine .inr ⟨.plain name (angled_arguments opening items closing'), first :: brackets, rfl, ?_⟩
    rw [tokens, closing.2.eq_nil, List.append_nil, OpenType.tokens]
    simp [ClassTokens.tokens, ClassTokens.plain]

variable {c : Cursor} {rest angles : List Token}

/-- Behind a name an angle is next, or what follows. -/
theorem Angled.next {sort : TokenKind → Prop} (h : Angled angles) (hrest : Next sort rest)
    (hsort : sort Symbol.lt) : Next sort (angles ++ rest) := by
  rcases h with rfl | ⟨t, us, rfl, ht, -⟩
  · exact hrest
  · change sort t.kind
    rw [ht]
    exact hsort

/-- Type arguments that are there are skipped, and nothing else is. -/
theorem skipTypeArguments_land (h : Angled angles) (hc : c.rest = angles ++ rest)
    (hrest : Next (· ≠ Symbol.lt) rest) :
    Lands c (· = rest) (fun _ => True) skipTypeArguments := by
  rcases h with rfl | ⟨t, us, rfl, ht, hpast⟩
  · have hc : c.rest = rest := hc
    refine .glance (skip_no (hc ▸ hrest)) ?_
    rw [if_neg Bool.false_ne_true]
    exact .pure trivial hc
  · refine .step (skip_past hc ht) ?_
    rw [if_pos rfl]
    refine ⟨trivial, ?_, ⟨rfl, rfl, rfl⟩⟩
    have hleft : (skipAngles 1 (t :: c.consumed) (us ++ rest)).2 = rest := by
      rw [skipAngles_snd, hpast]
    exact hleft

/-- Behind a class a dot is next, or what follows. -/
theorem InnerNames.next {sort : TokenKind → Prop} {inners : List Token} (h : InnerNames inners)
    (hrest : Next sort rest) (hsort : sort Symbol.dot) : Next sort (inners ++ rest) := by
  cases h with
  | nil => exact hrest
  | cons dot _ _ _ _ =>
    change sort dot.1.kind
    rw [dot.kind_eq]
    exact hsort

/-- A name that is read ends in front of its type arguments, or without any in front of what
follows the whole type. -/
theorem Angled.next_undotted {inners : List Token} (h : Angled angles)
    (hlast : angles = [] → inners = []) (hrest : Next (· ≠ Symbol.dot) rest) :
    Next (· ≠ Symbol.dot) (angles ++ (inners ++ rest)) := by
  by_cases hnone : angles = []
  · rw [hnone, hlast hnone]
    exact hrest
  · obtain ⟨t, us, rfl, ht, -⟩ := h.resolve_left hnone
    change t.kind ≠ _
    rw [ht]
    decide

/-- Further names are passed with their type arguments. -/
theorem innerNames_land {inners : List Token} (h : InnerNames inners)
    (hdot : Next (· ≠ Symbol.dot) rest) (hlt : Next (· ≠ Symbol.lt) rest)
    (hc : c.rest = inners ++ rest) :
    Lands c (· = rest) (fun _ => True) (many (check2 Symbol.dot .identifier) do
      let _ ← advance
      let inner ← qualifiedName
      skipTypeArguments
      return inner) := by
  have hbound : inners.length < 1 + c.rest.length := by
    rw [hc, List.length_append]
    omega
  refine .many ?_
  generalize 1 + c.rest.length = n at hbound
  induction h generalizing c n with
  | nil =>
    obtain ⟨m, rfl⟩ : ∃ m, n = m + 1 := ⟨n - 1, by omega⟩
    have hc : c.rest = rest := hc
    exact .manyUpTo_stop (check2_no (hc ▸ hdot)) trivial hc
  | @cons angles ts dot name hangles hlast hmore ih =>
    simp only [List.length_cons, List.length_append] at hbound
    obtain ⟨m, rfl⟩ : ∃ m, n = m + 1 := ⟨n - 1, by omega⟩
    simp only [List.cons_append, List.append_assoc] at hc
    have hafter := hangles.next_undotted hlast hdot
    have hstop : Next (· ≠ Symbol.lt) (ts ++ rest) := hmore.next hlt (by decide)
    have hinner : Lands c (· = ts ++ rest) (fun _ => True) (do
        let _ ← advance
        let inner ← qualifiedName
        skipTypeArguments
        return inner) := by
      refine .step (advance_past hc (ne_eof_of_mem dot.2 (by decide))) ?_
      refine (name.lands rfl hafter).bind fun _ d hd _ => ?_
      exact (skipTypeArguments_land hangles hd hstop).bind fun _ d hd _ => .pure trivial hd
    exact .manyUpTo_go (check2_yes hc dot.kind_eq name.first.kind_eq) (.refl c) hinner
      (fun d hd => ih hd m (by omega)) fun _ _ _ _ => trivial

/-- The search for a declaration passes a whole class type. -/
theorem skipClassName_land {target : ClassTokens} (hc : c.rest = target.tokens ++ rest)
    (hdot : Next (· ≠ Symbol.dot) rest) (hlt : Next (· ≠ Symbol.lt) rest) :
    Lands c (· = rest) (fun _ => True) skipClassName := by
  rw [ClassTokens.tokens, List.append_assoc, List.append_assoc] at hc
  have hinner : Next (· ≠ Symbol.lt) (target.inners ++ rest) :=
    target.further.next hlt (by decide)
  by_cases hnone : target.angles = []
  · have hrest : c.rest = target.name.tokens ++ rest := by
      rw [hc, hnone, target.last hnone]
      rfl
    refine (target.name.lands hrest hdot).bind fun _ d hd _ => ?_
    refine .glance (check_no (hd ▸ hlt)) ?_
    rw [if_neg Bool.false_ne_true]
    exact .pure trivial hd
  · obtain ⟨t, us, hangles, ht, -⟩ := target.angled.resolve_left hnone
    have hopening : Next (· = Symbol.lt) (target.angles ++ (target.inners ++ rest)) := by
      rw [hangles]
      exact ht
    have hname := target.angled.next_undotted target.last hdot
    refine (target.name.lands hc hname).bind fun _ d hd _ => ?_
    refine .glance (check_yes (hd ▸ hopening)) ?_
    rw [if_pos rfl]
    refine (skipTypeArguments_land target.angled hd hinner).bind fun _ d hd _ => ?_
    exact (innerNames_land target.further hdot hlt hd).bind fun _ d hd _ => .pure trivial hd

/-- Array brackets that are there are skipped, and nothing else is. -/
theorem skipBrackets_land {brackets : List BracketPair}
    (hc : c.rest = bracketTokens brackets ++ rest) (hrest : Next (· ≠ Symbol.lbracket) rest) :
    Lands c (· = rest) (fun _ => True) skipBrackets := by
  have hbound : brackets.length < 1 + c.rest.length := by
    have hpairs := length_le_bracketTokens brackets
    rw [hc, List.length_append]
    omega
  suffices hpairs : Lands c (· = rest) (fun _ => True) bracketPairs from
    hpairs.bind fun _ d hd _ => .pure trivial hd
  refine .loop ?_
  generalize 1 + c.rest.length = n at hbound
  generalize 0 = count
  induction brackets generalizing c n count with
  | nil =>
    obtain ⟨m, rfl⟩ : ∃ m, n = m + 1 := ⟨n - 1, by omega⟩
    have hstop : (check2 Symbol.lbracket Symbol.rbracket).run c = (false, c) :=
      check2_no (hc ▸ hrest)
    refine .iterate_stop ?_ trivial hc
    rw [bind_of_run hstop]
    rfl
  | cons pair brackets ih =>
    obtain ⟨m, rfl⟩ : ∃ m, n = m + 1 := ⟨n - 1, by omega⟩
    have hm : brackets.length < m := by
      rw [List.length_cons] at hbound
      omega
    have hfront : c.rest = pair.opening.1 :: pair.closing.1 ::
      (bracketTokens brackets ++ rest) := hc
    refine .iterate_go (?_ : Lands c (· = bracketTokens brackets ++ rest)
      (fun o => ∃ b, o = some b ∧ b = count + 1) _) fun b d hd _ => ih hd m hm b
    refine .glance (check2_yes hfront pair.opening.kind_eq pair.closing.kind_eq) ?_
    refine .step (advance_past hfront (ne_eof_of_mem pair.opening.2 (by decide))) ?_
    refine .step (advance_past rfl (ne_eof_of_mem pair.closing.2 (by decide))) ?_
    exact .pure ⟨_, rfl, rfl⟩ rfl

/-- After brackets, a name and one more token, the answer is whether that is a colon. -/
theorem variableAndColon_land {brackets : List BracketPair} {label : Token.Among nameKinds}
    {next : Token} (hc : c.rest = bracketTokens brackets ++ label.1 :: next :: rest) :
    Lands c (· = next :: rest) (· = (next.kind == .symbol .colon))
      startsEnhancedFor.variableAndColon := by
  have hbound : brackets.length < 1 + c.rest.length := by
    have hpairs := length_le_bracketTokens brackets
    rw [hc, List.length_append]
    omega
  have hloop : Lands c (· = label.1 :: next :: rest) (fun _ => True) (loop (fun (_ : Unit) => do
      if ← skip Symbol.lbracket then
        let _ ← skip Symbol.rbracket
        return some ()
      else return none) ()) := by
    refine .loop ?_
    generalize 1 + c.rest.length = n at hbound
    induction brackets generalizing c n with
    | nil =>
      obtain ⟨m, rfl⟩ : ∃ m, n = m + 1 := ⟨n - 1, by omega⟩
      have hlabel : Next (· ≠ Symbol.lbracket) c.rest := by
        rw [hc]
        exact (by decide : ∀ k ∈ nameKinds, k ≠ Symbol.lbracket) _ label.2
      refine .iterate_stop ?_ trivial hc
      rw [bind_of_run (skip_no hlabel)]
      rfl
    | cons pair brackets ih =>
      obtain ⟨m, rfl⟩ : ∃ m, n = m + 1 := ⟨n - 1, by omega⟩
      have hm : brackets.length < m := by
        rw [List.length_cons] at hbound
        omega
      have hfront : c.rest = pair.opening.1 :: pair.closing.1 ::
          (bracketTokens brackets ++ label.1 :: next :: rest) := hc
      refine .iterate_go (?_ : Lands c (· = bracketTokens brackets ++ label.1 :: next :: rest)
        (fun o => ∃ b, o = some b ∧ b = ()) _) fun b d hd _ => ih hd m hm
      refine .step (skip_past hfront pair.opening.kind_eq) ?_
      rw [if_pos rfl]
      refine .step (skip_past rfl pair.closing.kind_eq) ?_
      exact .pure ⟨_, rfl, rfl⟩ rfl
  refine hloop.bind fun _ d hd _ => ?_
  have hname : checkName.run d = (true, d) := by
    change ((d.tokenAt 0).kind.isName, d) = _
    rw [tokenAt_zero_cons hd, (by decide : ∀ k ∈ nameKinds, k.isName = true) _ label.2]
  refine .glance hname ?_
  rw [if_pos rfl]
  refine .step (advance_past hd (ne_eof_of_mem label.2 (by decide))) ?_
  exact ⟨rfl, rfl, .refl _⟩

/-- A class type in front of a name is the type of a declaration. -/
theorem declares_class {target : ClassTokens} {brackets : List BracketPair}
    {label : Token.Among nameKinds}
    (hc : c.rest = target.tokens ++ (bracketTokens brackets ++ label.1 :: rest)) :
    Lands c (· = label.1 :: rest) (· = true) declares := by
  have hlabel : label.1.kind.isName = true :=
    (by decide : ∀ k ∈ nameKinds, k.isName = true) _ label.2
  have hkinds : label.1.kind ≠ Symbol.dot ∧ label.1.kind ≠ Symbol.lt ∧
      label.1.kind ≠ Symbol.lbracket := (by decide : ∀ k ∈ nameKinds, k ≠ Symbol.dot ∧
    k ≠ Symbol.lt ∧ k ≠ Symbol.lbracket) _ label.2
  have hfront : ∃ ts, c.rest = target.name.first.1 :: ts := ⟨_, hc⟩
  obtain ⟨ts, hfront⟩ := hfront
  have hname : (target.name.first.1.kind == .identifier) = true :=
    beq_iff_eq.2 target.name.first.kind_eq
  refine .of_eq (kindAt_bind hfront) ?_
  rw [if_neg (by rw [target.name.first.kind_eq]; decide),
    if_neg (by rw [target.name.first.kind_eq]; decide), if_pos hname]
  refine (skipClassName_land hc (bracketTokens_next brackets hkinds.1 (by decide))
    (bracketTokens_next brackets hkinds.2.1 (by decide))).bind fun _ d hd _ => ?_
  refine (skipBrackets_land hd hkinds.2.2).bind fun _ d hd _ => ?_
  refine ⟨?_, hd, .refl d⟩
  change (d.tokenAt 0).kind.isName = true
  rw [tokenAt_zero_cons hd]
  exact hlabel

/-- The search for an enhanced `for` stops in front of names behind type arguments. Where there
are none, the answer is whether a colon follows the name behind the type. -/
theorem iterates_class {target : ClassTokens} {brackets : List BracketPair}
    {label : Token.Among nameKinds} {next : Token}
    (hc : c.rest = target.tokens ++ (bracketTokens brackets ++ label.1 :: next :: rest)) :
    (iterates.run c).1 = (target.inners.isEmpty && next.kind == .symbol .colon) := by
  have hkinds : label.1.kind ≠ Symbol.dot ∧ label.1.kind ≠ Symbol.lt :=
    (by decide : ∀ k ∈ nameKinds, k ≠ Symbol.dot ∧ k ≠ Symbol.lt) _ label.2
  have hfront : ∃ ts, c.rest = target.name.first.1 :: ts := ⟨_, hc⟩
  obtain ⟨ts, hfront⟩ := hfront
  have hname : (target.name.first.1.kind == .identifier) = true :=
    beq_iff_eq.2 target.name.first.kind_eq
  have hdot : Next (· ≠ Symbol.dot) (bracketTokens brackets ++ label.1 :: next :: rest) :=
    bracketTokens_next brackets hkinds.1 (by decide)
  have hlt : Next (· ≠ Symbol.lt) (bracketTokens brackets ++ label.1 :: next :: rest) :=
    bracketTokens_next brackets hkinds.2 (by decide)
  have hmiddle : Next (· ≠ Symbol.lt)
      (target.inners ++ (bracketTokens brackets ++ label.1 :: next :: rest)) :=
    target.further.next hlt (by decide)
  have hafter := target.angled.next_undotted target.last hdot
  rw [ClassTokens.tokens, List.append_assoc, List.append_assoc] at hc
  suffices h : Lands c (fun _ => True)
      (· = (target.inners.isEmpty && next.kind == .symbol .colon)) iterates from h.result
  refine .of_eq (kindAt_bind hfront) ?_
  rw [if_neg (by rw [target.name.first.kind_eq]; decide), if_pos hname]
  refine (target.name.lands hc hafter).bind fun _ d hd _ => ?_
  refine (skipTypeArguments_land target.angled hd hmiddle).bind fun _ d hd _ => ?_
  have hinners := target.further
  generalize target.inners = inners at hd hinners ⊢
  cases hinners with
  | nil =>
    have hd : d.rest = bracketTokens brackets ++ label.1 :: next :: rest := hd
    exact (variableAndColon_land hd).imp (fun _ _ => trivial) fun _ h => h
  | cons dot _ _ _ _ =>
    have hbracket : Next (· ≠ Symbol.lbracket) d.rest := by
      rw [hd]
      exact dot.next_ne (by decide)
    have hunnamed : checkName.run d = (false, d) := by
      change ((d.tokenAt 0).kind.isName, d) = _
      rw [tokenAt_zero_cons hd, dot.kind_eq]
      rfl
    refine .glance (loop_none ?_) (.glance hunnamed ?_)
    · rw [bind_of_run (skip_no hbracket)]
      rfl
    · rw [if_neg Bool.false_ne_true]
      exact .pure rfl trivial

/-- A type in front of a name is the type of a declaration. -/
theorem declares_type (t : LocalType) {label : Token.Among nameKinds}
    (hc : c.rest = t.tokens ++ label.1 :: rest) : (declares.run c).1 = true := by
  cases t with
  | inferred word =>
    have hfront : c.rest = word.1 :: label.1 :: rest := hc
    have hrun : declares.run c = ((c.tokenAt 1).kind.isName, c) := by
      rw [declares, kindAt_bind hfront, word.kind_eq]
      rfl
    rw [hrun, tokenAt_one_cons hfront]
    exact (by decide : ∀ k ∈ nameKinds, k.isName = true) _ label.2
  | given type =>
    rcases type.shape with ⟨word, brackets, htokens⟩ | ⟨target, brackets, -, htokens⟩
    · have hfront : c.rest = word.1 :: (bracketTokens brackets ++ label.1 :: rest) := by
        rw [hc, LocalType.tokens, htokens, List.cons_append]
      have hword : word.1.kind.isPrimitive = true :=
        (by decide : ∀ k ∈ primitiveWords, k.isPrimitive = true) _ word.2
      rw [declares, kindAt_bind hfront, if_pos hword]
      rfl
    · have hwhole : c.rest = target.tokens ++ (bracketTokens brackets ++ label.1 :: rest) := by
        rw [hc, LocalType.tokens, htokens, List.append_assoc]
      exact (declares_class hwhole).result

/-- A type, a name and a colon are the head of an enhanced `for`. -/
theorem iterates_type (t : LocalType) {label : Token.Among nameKinds} {next : Token}
    (hc : c.rest = t.tokens ++ label.1 :: next :: rest) :
    (iterates.run c).1 = (next.kind == .symbol .colon) := by
  have hword {word : Token} (brackets : List BracketPair)
      (hkind : (word.kind.isPrimitive || word.kind == .keyword .varKw) = true)
      (hfront : c.rest = word :: (bracketTokens brackets ++ label.1 :: next :: rest)) :
      (iterates.run c).1 = (next.kind == .symbol .colon) := by
    have hne : word.kind ≠ .eof := by
      intro heof
      rw [heof] at hkind
      exact absurd hkind (by decide)
    rw [iterates, kindAt_bind hfront, if_pos hkind, bind_of_run (advance_past hfront hne)]
    exact (variableAndColon_land rfl).result
  cases t with
  | inferred word =>
    exact hword [] (by rw [word.kind_eq]; decide) hc
  | given type =>
    rcases type.shape with ⟨word, brackets, htokens⟩ | ⟨target, brackets, hinners, htokens⟩
    · refine hword brackets ?_ (by rw [hc, LocalType.tokens, htokens]; rfl)
      exact (by decide : ∀ k ∈ primitiveWords, (k.isPrimitive || k == .keyword .varKw) = true) _
        word.2
    · have hwhole : c.rest =
          target.tokens ++ (bracketTokens brackets ++ label.1 :: next :: rest) := by
        rw [hc, LocalType.tokens, htokens, List.append_assoc]
      rw [iterates_class hwhole, hinners]
      rfl

end Declared

section Performed

/-- The levels of a primary expression with its suffixes. -/
def Level.Suffixable : Level → Prop
  | .suffixed => True
  | .callee => True
  | _ => False

/-- Tokens after a name with which neither a type nor a declaration goes on. -/
inductive NameTail : List Token → Prop where
  | stop {t : Token} {ts : List Token} (ht : t.kind ∉ nameKinds ++ typeMarks) : NameTail (t :: ts)
  | access {t u : Token} {ts : List Token} (ht : t.kind = Symbol.dot) (hu : u.kind ≠ .identifier) :
      NameTail (t :: u :: ts)
  | index {t u : Token} {ts : List Token} (ht : t.kind = Symbol.lbracket)
      (hu : u.kind ∈ operandStarts) (hts : Next (· ≠ Symbol.colon) ts) : NameTail (t :: u :: ts)
  | part {t u : Token} {ts : List Token} (ht : t.kind = Symbol.dot) (hu : u.kind = .identifier)
      (h : NameTail ts) : NameTail (t :: u :: ts)

/-- Where a lookahead is behind a chain of names of an expression. -/
inductive Halted : List Token → Prop where
  | stop {t : Token} {ts : List Token}
      (ht : t.kind ∉ [TokenKind.identifier, .keyword .varKw, .symbol .lt, .symbol .lbracket]) :
      Halted (t :: ts)
  | index {t u : Token} {ts : List Token} (ht : t.kind = Symbol.lbracket)
      (hu : u.kind ∈ operandStarts) (hts : Next (· ≠ Symbol.colon) ts) : Halted (t :: u :: ts)

/-- The kinds of tokens that may be names. -/
theorem isName_iff {kind : TokenKind} : kind.isName = true ↔ kind ∈ nameKinds := by
  unfold TokenKind.isName nameKinds
  split
  · simp
  · simp
  · simp_all

/-- A name passes the check. -/
theorem checkName_yes {c : Cursor} (h : Next (· ∈ nameKinds) c.rest) :
    checkName.run c = (true, c) := by
  have hname : (c.tokenAt 0).kind.isName = true := isName_iff.2 h.kind
  change ((c.tokenAt 0).kind.isName, c) = _
  rw [hname]

/-- A token that is no name fails the check. -/
theorem checkName_no {c : Cursor} (h : Next (· ∉ nameKinds) c.rest) :
    checkName.run c = (false, c) := by
  have hname : (c.tokenAt 0).kind.isName = false :=
    Bool.eq_false_iff.2 fun hname => h.kind (isName_iff.1 hname)
  change ((c.tokenAt 0).kind.isName, c) = _
  rw [hname]

/-- Behind a name that no type continues the search halts. -/
theorem NameTail.halted {ts : List Token} (h : NameTail ts) : Halted ts := by
  cases h with
  | stop ht =>
    refine .stop fun hmem => ht ?_
    exact (by decide : [TokenKind.identifier, .keyword .varKw, .symbol .lt, .symbol .lbracket] ⊆
      nameKinds ++ typeMarks) hmem
  | access ht _ => exact .stop (by rw [ht]; decide)
  | index ht hu hts => exact .index ht hu hts
  | part ht _ _ => exact .stop (by rw [ht]; decide)

/-- Where the search halts no name and no angle is next. -/
theorem Halted.next {ts : List Token} (h : Halted ts) :
    Next (fun k => k ∉ nameKinds ∧ k ≠ Symbol.lt) ts := by
  cases h with
  | stop ht =>
    refine ⟨fun hmem => ht ?_, fun hlt => ht ?_⟩
    · exact (by decide : nameKinds ⊆
        [TokenKind.identifier, .keyword .varKw, .symbol .lt, .symbol .lbracket]) hmem
    · rw [hlt]
      decide
  | index ht _ _ =>
    refine ⟨?_, ?_⟩
    · rw [ht]
      decide
    · rw [ht]
      decide

namespace Expression

/-- After the first token of an expression there is no colon, unless one follows it. -/
theorem second : ∀ {l : Level} (e : Expression l) {rest ts : List Token} {t : Token}, l.Regular →
    Next (· ≠ Symbol.colon) rest → e.tokens ++ rest = t :: ts → Next (· ≠ Symbol.colon) ts
  | _, .assign left operator right, rest, ts, t, _, _, htokens => by
    have hoperator : Next (· ≠ Symbol.colon) (operator.1 :: (right.tokens ++ rest)) :=
      operator.next_ne (by decide)
    rw [tokens, List.append_assoc] at htokens
    exact left.second trivial hoperator htokens
  | _, .ofTernary e, _, _, _, _, h, htokens => e.second trivial h htokens
  | _, .conditional condition question yes colon no, rest, ts, t, _, _, htokens => by
    have hquestion : Next (· ≠ Symbol.colon)
        (question.1 :: (yes.tokens ++ colon.1 :: (no.tokens ++ rest))) :=
      question.next_ne (by decide)
    simp only [tokens, List.append_assoc, List.cons_append] at htokens
    exact condition.second (List.suffix_refl _) hquestion htokens
  | _, .ofBinary e, _, _, _, _, h, htokens => e.second (List.suffix_refl _) h htokens
  | _, .operation left operator right, rest, ts, t, hl, _, htokens => by
    have hbinary := (hl.operator (List.mem_of_mem_filter operator.2)).1
    have hoperator : Next (· ≠ Symbol.colon) (operator.1 :: (right.tokens ++ rest)) :=
      (by decide : ∀ k ∈ binaryLevels.flatten, k ≠ Symbol.colon) _ hbinary
    rw [tokens, List.append_assoc] at htokens
    exact left.second hl hoperator htokens
  | _, .ofTighter e, _, _, _, hl, h, htokens => e.second hl.tighter h htokens
  | _, .signed operator operand, rest, ts, t, _, _, htokens => by
    rw [tokens, List.cons_append] at htokens
    obtain ⟨-, rfl⟩ := List.cons.inj htokens
    obtain ⟨u, us, hfront, -, hu⟩ := operand.head_append rest
    rw [hfront]
    exact (by decide : ∀ k ∈ operandStarts, k ≠ Symbol.colon) _ hu
  | _, .ofSuffixed e, _, _, _, _, h, htokens => e.second trivial h htokens
  | _, .counted target operator, rest, ts, t, _, _, htokens => by
    have hoperator : Next (· ≠ Symbol.colon) (operator.1 :: rest) :=
      (by decide : ∀ k ∈ [TokenKind.symbol .increment, .symbol .decrement], k ≠ Symbol.colon)
        _ operator.2
    rw [tokens, List.append_assoc] at htokens
    exact target.second trivial hoperator htokens
  | _, .index target opening place closing, rest, ts, t, _, _, htokens => by
    have hopening : Next (· ≠ Symbol.colon)
        (opening.1 :: (place.tokens ++ closing.1 :: rest)) :=
      opening.next_ne (by decide)
    simp only [tokens, List.append_assoc, List.cons_append, List.nil_append] at htokens
    exact target.second trivial hopening htokens
  | _, .call target opening items closing, rest, ts, t, _, _, htokens => by
    have hopening : Next (· ≠ Symbol.colon)
        (opening.1 :: (items.tokens ++ closing.1 :: rest)) :=
      opening.next_ne (by decide)
    simp only [tokens, List.append_assoc, List.cons_append, List.nil_append] at htokens
    exact target.second trivial hopening htokens
  | _, .paren opening inner closing, rest, ts, t, _, _, htokens => by
    simp only [tokens, List.append_assoc, List.cons_append, List.nil_append] at htokens
    obtain ⟨-, rfl⟩ := List.cons.inj htokens
    obtain ⟨u, us, hfront, -, hu⟩ := inner.head_append (closing.1 :: rest)
    rw [hfront]
    exact (by decide : ∀ k ∈ operandStarts, k ≠ Symbol.colon) _ hu
  | _, .literal _, _, _, _, _, h, htokens => by
    obtain ⟨-, rfl⟩ := List.cons.inj htokens
    exact h
  | _, .this _, _, _, _, _, h, htokens => by
    obtain ⟨-, rfl⟩ := List.cons.inj htokens
    exact h
  | _, .ofCallee e, _, _, _, _, h, htokens => e.second trivial h htokens
  | _, .name _, _, _, _, _, h, htokens => by
    obtain ⟨-, rfl⟩ := List.cons.inj htokens
    exact h
  | _, .field target dot label, rest, ts, t, _, _, htokens => by
    have hdot : Next (· ≠ Symbol.colon) (dot.1 :: label.1 :: rest) :=
      dot.next_ne (by decide)
    rw [tokens, List.append_assoc] at htokens
    exact target.second trivial hdot htokens

/-- A search for a declaration that has taken the first token of a primary expression as a name
cannot go on after it, if it cannot go on after the whole expression. -/
theorem nameTail : ∀ {l : Level} (e : Expression l) {rest ts : List Token} {t : Token},
    l.Suffixable → e.tokens ++ rest = t :: ts → t.kind ∈ nameKinds → NameTail rest → NameTail ts
  | _, .assign _ _ _, _, _, _, hl, _, _, _ => hl.elim
  | _, .ofTernary _, _, _, _, hl, _, _, _ => hl.elim
  | _, .conditional _ _ _ _ _, _, _, _, hl, _, _, _ => hl.elim
  | _, .ofBinary _, _, _, _, hl, _, _, _ => hl.elim
  | _, .operation _ _ _, _, _, _, hl, _, _, _ => hl.elim
  | _, .ofTighter _, _, _, _, hl, _, _, _ => hl.elim
  | _, .signed _ _, _, _, _, hl, _, _, _ => hl.elim
  | _, .ofSuffixed _, _, _, _, hl, _, _, _ => hl.elim
  | _, .counted target operator, rest, ts, t, _, htokens, ht, _ => by
    have hoperator : NameTail (operator.1 :: rest) :=
      .stop ((by decide : ∀ k ∈ [TokenKind.symbol .increment, .symbol .decrement],
        k ∉ nameKinds ++ typeMarks) _ operator.2)
    rw [tokens, List.append_assoc] at htokens
    exact target.nameTail trivial htokens ht hoperator
  | _, .index target opening place closing, rest, ts, t, _, htokens, ht, _ => by
    have hclosing : Next (· ≠ Symbol.colon) (closing.1 :: rest) :=
      closing.next_ne (by decide)
    obtain ⟨u, us, hplace, -, hu⟩ := place.head_append (closing.1 :: rest)
    have hindex : NameTail (opening.1 :: (place.tokens ++ closing.1 :: rest)) := by
      rw [hplace]
      exact .index opening.kind_eq hu (place.second trivial hclosing hplace)
    simp only [tokens, List.append_assoc, List.cons_append, List.nil_append] at htokens
    exact target.nameTail trivial htokens ht hindex
  | _, .call target opening items closing, rest, ts, t, _, htokens, ht, _ => by
    have hopening : NameTail (opening.1 :: (items.tokens ++ closing.1 :: rest)) :=
      .stop (by rw [opening.kind_eq]; decide)
    simp only [tokens, List.append_assoc, List.cons_append, List.nil_append] at htokens
    exact target.nameTail trivial htokens ht hopening
  | _, .paren opening _ _, _, _, _, _, htokens, ht, _ => by
    obtain ⟨rfl, -⟩ := List.cons.inj htokens
    rw [opening.kind_eq] at ht
    exact absurd ht (by decide)
  | _, .literal word, _, _, _, _, htokens, ht, _ => by
    obtain ⟨rfl, -⟩ := List.cons.inj htokens
    exact absurd ht ((by decide : ∀ k ∈ literalKinds, k ∉ nameKinds) _ word.2)
  | _, .this word, _, _, _, _, htokens, ht, _ => by
    obtain ⟨rfl, -⟩ := List.cons.inj htokens
    rw [word.kind_eq] at ht
    exact absurd ht (by decide)
  | _, .ofCallee e, _, _, _, _, htokens, ht, h => e.nameTail trivial htokens ht h
  | _, .name _, _, _, _, _, htokens, _, h => by
    obtain ⟨-, rfl⟩ := List.cons.inj htokens
    exact h
  | _, .field target dot label, rest, ts, t, _, htokens, ht, h => by
    have hdot : NameTail (dot.1 :: label.1 :: rest) := by
      by_cases hlabel : label.1.kind = .identifier
      · exact .part dot.kind_eq hlabel h
      · exact .access dot.kind_eq hlabel
    rw [tokens, List.append_assoc] at htokens
    exact target.nameTail trivial htokens ht hdot

/-- An operation at a looser level has the same tokens. -/
theorem raise_tokens {levels : List (List TokenKind)} (e : Expression (.binary levels))
    (looser : List (List TokenKind)) : (e.raise looser).tokens = e.tokens := by
  induction looser with
  | nil => rfl
  | cons operators looser ih =>
    rw [raise, tokens]
    exact ih

/-- An expression with suffixes has the same tokens at every level. -/
theorem ofPrimary_tokens (e : Expression .suffixed) : (ofPrimary e).tokens = e.tokens :=
  (Expression.ofSuffixed e).raise_tokens binaryLevels

end Expression

/-- A search for a declaration that has taken the first token of an action as a name cannot go
on after it. -/
theorem Action.nameTail (a : Action) {rest ts : List Token} {t : Token}
    (h : a.expression.tokens ++ rest = t :: ts) (ht : t.kind ∈ nameKinds) : NameTail ts := by
  cases a with
  | assign target operator value =>
    have htokens : (expression (.assign target operator value)).tokens =
        target.expression.tokens ++ operator.1 :: value.tokens :=
      congrArg (· ++ operator.1 :: value.tokens) (Expression.raise_tokens _ _)
    have hoperator : NameTail (operator.1 :: (value.tokens ++ rest)) :=
      .stop ((by decide : ∀ k ∈ assignOperators, k ∉ nameKinds ++ typeMarks) _ operator.2)
    rw [htokens, List.append_assoc] at h
    exact target.expression.nameTail trivial h ht hoperator
  | call target opening items closing =>
    have htokens : (expression (.call target opening items closing)).tokens =
        target.tokens ++ opening.1 :: (items.tokens ++ [closing.1]) := Expression.ofPrimary_tokens _
    have hopening : NameTail (opening.1 :: (items.tokens ++ [closing.1] ++ rest)) :=
      .stop (by rw [opening.kind_eq]; decide)
    rw [htokens, List.append_assoc] at h
    exact target.nameTail trivial h ht hopening
  | countAfter target operator =>
    have htokens : (expression (.countAfter target operator)).tokens =
        target.expression.tokens ++ [operator.1] := Expression.ofPrimary_tokens _
    have hoperator : NameTail (operator.1 :: rest) :=
      .stop ((by decide : ∀ k ∈ countOperators, k ∉ nameKinds ++ typeMarks) _ operator.2)
    rw [htokens, List.append_assoc] at h
    exact target.expression.nameTail trivial h ht hoperator
  | countBefore operator target =>
    have hfront : (expression (.countBefore operator target)).tokens =
        operator.1 :: target.expression.tokens := Expression.raise_tokens _ _
    rw [hfront] at h
    obtain ⟨rfl, -⟩ := List.cons.inj h
    exact absurd ht ((by decide : ∀ k ∈ countOperators, k ∉ nameKinds) _ operator.2)

variable {c : Cursor} {rest : List Token}

/-- The search passes the parts of a name and halts. -/
theorem nameParts_halt {ts : List Token} (h : NameTail ts) {n : Nat} (hn : ts.length < n)
    (hc : c.rest = ts) : Lands c Halted (fun _ => True)
      (manyUpTo (check2 Symbol.dot .identifier) (advance >>= fun _ => leaf .identifier) n) := by
  obtain ⟨m, rfl⟩ : ∃ m, n = m + 1 := ⟨n - 1, by omega⟩
  induction h generalizing m c with
  | @stop t ts ht =>
    have hdot : Next (· ≠ Symbol.dot) c.rest := by
      rw [hc]
      intro hdot
      exact ht (by rw [hdot]; decide)
    exact .manyUpTo_stop (check2_no hdot) trivial (hc ▸ (NameTail.stop ht).halted)
  | @access t u ts ht hu =>
    exact .manyUpTo_stop (check2_no_second hc hu) trivial (hc ▸ (NameTail.access ht hu).halted)
  | @index t u ts ht hu hts =>
    have hdot : Next (· ≠ Symbol.dot) c.rest := by
      rw [hc]
      change t.kind ≠ _
      rw [ht]
      decide
    exact .manyUpTo_stop (check2_no hdot) trivial (hc ▸ .index ht hu hts)
  | @part t u ts ht hu _ ih =>
    simp only [List.length_cons] at hn
    obtain ⟨k, rfl⟩ : ∃ k, m = k + 1 := ⟨m - 1, by omega⟩
    have hleaf : Lands c (· = ts) (fun _ => True) (advance >>= fun _ => leaf .identifier) := by
      refine .step (advance_past hc (by rw [ht]; decide)) ?_
      exact .of_past (leaf_past rfl (by rw [hu]; decide)) trivial rfl
    exact .manyUpTo_go (check2_yes hc ht hu) (.refl c) hleaf
      (fun d hd => ih hd k (by omega)) fun _ _ _ _ => trivial

/-- The search passes a qualified name and halts. -/
theorem qualifiedName_halt {t : Token} {ts : List Token} (hc : c.rest = t :: ts)
    (ht : t.kind ∈ nameKinds) (h : NameTail ts) : Lands c Halted (fun _ => True) qualifiedName := by
  have hname : Next (· ∈ nameKinds) c.rest := by
    rw [hc]
    exact ht
  refine .here fun start => .glance (checkName_yes hname) ?_
  rw [if_pos rfl]
  refine .step (leaf_past hc (ne_eof_of_mem ht (by decide))) ?_
  have hbound : ts.length < 1 + ts.length := by omega
  refine (Lands.many (nameParts_halt h hbound rfl)).bind fun more d hd _ => ?_
  exact ⟨trivial, hd, .refl d⟩

/-- Where the search halts there are no brackets to skip. -/
theorem skipBrackets_halted (h : Halted c.rest) : skipBrackets.run c = ((), c) := by
  have hno : (check2 Symbol.lbracket Symbol.rbracket).run c = (false, c) := by
    generalize hts : c.rest = ts at h
    cases h with
    | @stop t ts ht =>
      refine check2_no ?_
      rw [hts]
      intro hbracket
      exact ht (by rw [hbracket]; decide)
    | @index t u ts ht hu _ =>
      exact check2_no_second hts ((by decide : ∀ k ∈ operandStarts, k ≠ Symbol.rbracket) _ hu)
  have hpairs : bracketPairs.run c = (0, c) := by
    refine loop_none ?_
    rw [bind_of_run hno]
    rfl
  rw [skipBrackets, bind_of_run hpairs]
  rfl

/-- No variable with a colon stands where the lookahead has halted. -/
theorem variableAndColon_halted (h : Halted c.rest) :
    Lands c (fun _ => True) (· = false) startsEnhancedFor.variableAndColon := by
  have hunnamed := h.next
  generalize hts : c.rest = ts at h
  cases h with
  | @stop t ts ht =>
    have hbracket : Next (· ≠ Symbol.lbracket) c.rest := by
      rw [hts]
      intro hbracket
      exact ht (by rw [hbracket]; decide)
    refine .glance (loop_none ?_) (.glance (checkName_no (hunnamed.imp And.left)) ?_)
    · rw [bind_of_run (skip_no hbracket)]
      rfl
    · rw [if_neg Bool.false_ne_true]
      exact .pure rfl trivial
  | @index t u ts ht hu hcolon =>
    have hopen : Next (· ≠ Symbol.lbracket) (u :: ts) :=
      (by decide : ∀ k ∈ operandStarts, k ≠ Symbol.lbracket) _ hu
    have hclosed : Next (· ≠ Symbol.rbracket) (u :: ts) :=
      (by decide : ∀ k ∈ operandStarts, k ≠ Symbol.rbracket) _ hu
    -- The bracket is taken alone, and the loop ends at the index.
    have hloop : Lands c (· = u :: ts) (fun _ => True) (loop (fun (_ : Unit) => do
        if ← skip Symbol.lbracket then
          let _ ← skip Symbol.rbracket
          return some ()
        else return none) ()) := by
      have hbound : 1 + c.rest.length = (ts.length + 1 + 1) + 1 := by
        rw [hts]
        simp only [List.length_cons]
        omega
      refine .loop ?_
      rw [hbound]
      refine .iterate_go (?_ : Lands c (· = u :: ts) (fun o => ∃ b, o = some b ∧ b = ()) _)
        fun b d hd _ => .iterate_stop ?_ trivial hd
      · refine .step (skip_past hts ht) ?_
        rw [if_pos rfl]
        refine .glance (skip_no hclosed) ?_
        exact .pure ⟨_, rfl, rfl⟩ rfl
      · rw [bind_of_run (skip_no (hd ▸ hopen))]
        rfl
    refine hloop.bind fun _ d hd _ => ?_
    by_cases hname : u.kind ∈ nameKinds
    · have hnamed : Next (· ∈ nameKinds) d.rest := by
        rw [hd]
        exact hname
      refine .glance (checkName_yes hnamed) ?_
      rw [if_pos rfl]
      refine .step (advance_past hd (ne_eof_of_mem hname (by decide))) ?_
      exact .of_eq (check_no hcolon) (.pure rfl trivial)
    · have hnameless : Next (· ∉ nameKinds) d.rest := by
        rw [hd]
        exact hname
      refine .glance (checkName_no hnameless) ?_
      rw [if_neg Bool.false_ne_true]
      exact .pure rfl trivial

/-- Tokens with which an action or an empty clause begins. -/
def clauseStarts : List TokenKind := .symbol .semicolon :: operandStarts

/-- What begins like an expression that does something is no declaration. -/
theorem declares_action {t : Token} {ts : List Token} (hc : c.rest = t :: ts)
    (ht : t.kind ∈ clauseStarts) (htail : t.kind ∈ nameKinds → NameTail ts) :
    (declares.run c).1 = false := by
  have hprimitive : ¬ t.kind.isPrimitive = true :=
    (by decide : ∀ k ∈ clauseStarts, ¬ k.isPrimitive = true) _ ht
  by_cases hvar : (t.kind == .keyword .varKw) = true
  · have hkind : t.kind = .keyword .varKw := eq_of_beq hvar
    have hnext := (htail (by rw [hkind]; decide)).halted.next
    have hrun : declares.run c = ((c.tokenAt 1).kind.isName, c) := by
      rw [declares, kindAt_bind hc, if_neg hprimitive, if_pos hvar]
      rfl
    have hone : c.tokenAt 1 = (c.past [t] ts).tokenAt 0 := by
      rw [tokenAt, hc]
      rfl
    have hname : (checkName.run (c.past [t] ts)).1 = false := by
      rw [checkName_no (hnext.imp And.left)]
    rw [hrun, hone]
    exact hname
  · by_cases hname : (t.kind == .identifier) = true
    · have hkind : t.kind ∈ nameKinds := by
        rw [eq_of_beq hname]
        decide
      suffices hland : Lands c (fun _ => True) (· = false) declares from hland.result
      refine .of_eq (kindAt_bind hc) ?_
      rw [if_neg hprimitive, if_neg hvar, if_pos hname]
      have hclass : Lands c Halted (fun _ => True) skipClassName := by
        refine (qualifiedName_halt hc hkind (htail hkind)).bind fun _ d hd _ => ?_
        refine .glance (check_no (hd.next.imp And.right)) ?_
        rw [if_neg Bool.false_ne_true]
        exact .pure trivial hd
      refine hclass.bind fun _ d hd _ => ?_
      refine .glance (skipBrackets_halted hd) ?_
      exact .of_eq (checkName_no (hd.next.imp And.left)) (.pure rfl trivial)
    · rw [declares, kindAt_bind hc, if_neg hprimitive, if_neg hvar, if_neg hname]
      rfl

/-- What begins like an expression that does something is no head of an enhanced `for`. -/
theorem iterates_action {t : Token} {ts : List Token} (hc : c.rest = t :: ts)
    (ht : t.kind ∈ clauseStarts) (htail : t.kind ∈ nameKinds → NameTail ts) :
    (iterates.run c).1 = false := by
  have hprimitive : t.kind.isPrimitive = false :=
    (by decide : ∀ k ∈ clauseStarts, k.isPrimitive = false) _ ht
  by_cases hvar : (t.kind == .keyword .varKw) = true
  · have hkind : t.kind = .keyword .varKw := eq_of_beq hvar
    have hhalted := (htail (by rw [hkind]; decide)).halted
    have htest : (t.kind.isPrimitive || t.kind == .keyword .varKw) = true := by
      rw [hvar, Bool.or_true]
    rw [iterates, kindAt_bind hc, if_pos htest,
      bind_of_run (advance_past hc (by rw [hkind]; decide))]
    exact (variableAndColon_halted hhalted).result
  · have htest : ¬ (t.kind.isPrimitive || t.kind == .keyword .varKw) = true := by
      rw [hprimitive, Bool.false_or]
      exact hvar
    by_cases hname : (t.kind == .identifier) = true
    · have hkind : t.kind ∈ nameKinds := by
        rw [eq_of_beq hname]
        decide
      suffices hland : Lands c (fun _ => True) (· = false) iterates from hland.result
      refine .of_eq (kindAt_bind hc) ?_
      rw [if_neg htest, if_pos hname]
      refine (qualifiedName_halt hc hkind (htail hkind)).bind fun _ d hd _ => ?_
      have hskip : skipTypeArguments.run d = ((), d) := by
        rw [skipTypeArguments, bind_of_run (skip_no (hd.next.imp And.right)),
          if_neg Bool.false_ne_true]
        rfl
      exact .glance hskip (variableAndColon_halted hd)
    · rw [iterates, kindAt_bind hc, if_neg htest, if_neg hname]
      rfl

end Performed

end JavaObjC
