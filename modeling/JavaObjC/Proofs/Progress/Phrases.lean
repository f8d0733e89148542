import JavaObjC.Proofs.Progress.Proceeding

/-!
# Names, types and lookaheads proceed

The productions that declarations, statements and expressions share, and the
lookaheads that read real phrases. Each of them proceeds provided that the
parsers for the phrases inside agree on `room` tokens ahead: a production
that begins with a token of its own may have one token more ahead than that.
-/

namespace JavaObjC

open Cursor

/-- Parsers for phrases that proceed where at most `room` tokens are ahead. -/
def Grammar.Rules.Agree (R : Region) (room : Nat) (rule rule' : Grammar.Rules) : Prop :=
  ∀ phrase c, c.Within R → c.rest.length ≤ room →
    Proceeds R c (Took R c.rest.length) (rule phrase) (rule' phrase)

namespace Grammar

variable {R : Region} {room : Nat} {rule rule' : Rules} {c : Cursor}

theorem qualifiedName_proceeds (hc : c.Within R) :
    Proceeds R c (Took R c.rest.length) qualifiedName qualifiedName := by
  refine .here_bind hc fun hstart => .ifCheckName (fun hname => ?_) fun _ => .problem _ _ _ hc
  refine (Proceeds.leaf hc (ne_eof_of_isName hname)).bind fun first c₁ hc₁ _ hfirst => ?_
  refine (Proceeds.manyWhile (fun _ => rfl) (fun e hyes => ?_) (fun e he _ hyes => ?_) hc₁).bind
    fun more c₂ hc₂ hle₂ hmore => ?_
  · exact ne_eof_of_eq (Parser.kinds_of_check2 (Prod.ext hyes rfl)).1
  · obtain ⟨hdot, hidentifier⟩ := Parser.kinds_of_check2 (Prod.ext hyes rfl)
    refine (Proceeds.advance he (ne_eof_of_eq hdot)).bind fun _ e₁ he₁ _ htaken => ?_
    obtain ⟨-, hlt, rfl⟩ := htaken
    have hk : (e.step.tokenAt 0).kind ≠ .eof := by
      rw [tokenAt_step]
      exact ne_eof_of_eq hidentifier
    exact (Proceeds.leaf he₁ hk).imp fun _ _ _ h => ⟨h.1, fun _ => by omega⟩
  · exact .finish_took hc₂ hstart (Node.withinAll_cons.2 ⟨hfirst.1, hmore.1⟩) fun _ => by omega

section Annotations

variable (hrule : rule.Agree R room rule') (hc : c.Within R)

include hrule hc

theorem annotationElement_proceeds (hroom : c.rest.length ≤ room) :
    Proceeds R c (Placed R) (annotationElement rule) (annotationElement rule') := by
  refine .here_bind hc fun hstart => (Proceeds.name hc).bind fun label c₁ hc₁ hle₁ hlabel => ?_
  refine .need_bind hc₁ fun c₂ hc₂ hle₂ _ => ?_
  refine (hrule .annotationValue c₂ hc₂ (by omega)).bind fun value c₃ hc₃ _ hvalue => ?_
  exact .finish hc₃ hstart (by simpa using ⟨hlabel.1, hvalue.1⟩)

theorem annotationValues_proceeds (hroom : c.rest.length ≤ room) :
    Proceeds R c (PlacedAll R) (annotationValues rule) (annotationValues rule') := by
  refine .ifCheck (fun _ => .pure hc Node.withinAll_nil) fun _ => .kindAt_bind ?_
  refine .ite (fun _ => ?_) fun _ => ?_
  · exact .commaList (fun e he hle => annotationElement_proceeds hrule he (by omega)) hc
  · refine (hrule .annotationValue c hc hroom).bind fun value c₁ hc₁ _ hvalue => ?_
    exact .pure hc₁ (Node.withinAll_cons.2 ⟨hvalue.1, Node.withinAll_nil⟩)

theorem annotationUse_proceeds (hroom : c.rest.length ≤ room + 1)
    (hfront : (c.tokenAt 0).kind = Symbol.atSign) :
    Proceeds R c (Took R c.rest.length) (annotationUse rule) (annotationUse rule') := by
  refine .opening_bind hc hfront fun hstart c₁ hc₁ hlt => ?_
  refine (qualifiedName_proceeds hc₁).bind fun target c₂ hc₂ hle₂ htarget => ?_
  refine .ifSkip hc₂ (fun c₃ hc₃ hlt₃ => ?_) fun _ => ?_
  · refine (annotationValues_proceeds hrule hc₃ (by omega)).bind fun values c₄ hc₄ hle₄ hvalues => ?_
    refine .need_bind hc₄ fun c₅ hc₅ hle₅ _ => ?_
    exact .finish_took hc₅ hstart (Node.withinAll_cons.2 ⟨htarget.1, hvalues⟩) fun _ => by omega
  · exact .finish_took hc₂ hstart (by simpa using htarget.1) fun _ => by omega

/-- Annotations in front of a phrase. -/
theorem annotations_proceeds (hroom : c.rest.length ≤ room + 1) :
    Proceeds R c
      (fun l e => Node.WithinAll R l ∧
        ((c.tokenAt 0).kind = Symbol.atSign → e.rest.length < c.rest.length) ∧
        ((c.tokenAt 0).kind ≠ Symbol.atSign → e = c))
      (Parser.many (Parser.check Symbol.atSign) (annotationUse rule))
      (Parser.many (Parser.check Symbol.atSign) (annotationUse rule')) := by
  refine (Proceeds.manyWhile (fun _ => rfl) (fun e hyes => ?_) (fun e he hle hyes => ?_) hc).imp
    fun l e _ h => ⟨h.1, fun hfront => h.2.1 (beq_iff_eq.2 hfront),
      fun hfront => h.2.2 (beq_eq_false_iff_ne.2 hfront)⟩
  · exact ne_eof_of_eq (Parser.kind_of_check (Prod.ext hyes rfl))
  · exact annotationUse_proceeds hrule he (by omega) (Parser.kind_of_check (Prod.ext hyes rfl))

end Annotations

section Types

theorem wildcard_proceeds (hrule : rule.Agree R room rule') (hc : c.Within R)
    (hroom : c.rest.length ≤ room) :
    Proceeds R c (Placed R) (wildcard rule) (wildcard rule') := by
  refine .here_bind hc fun hstart => .need_bind hc fun c₁ hc₁ hle₁ _ => ?_
  refine .ifCheckAny (fun hmem => ?_) (.finish hc₁ hstart Node.withinAll_nil)
  refine (Proceeds.leaf hc₁ (ne_eof_of_mem hmem (by decide))).bind
    fun direction c₂ hc₂ hle₂ hdirection => ?_
  refine (hrule .type c₂ hc₂ (by omega)).bind fun bound c₃ hc₃ _ hbound => ?_
  exact .finish hc₃ hstart (by simpa using ⟨hdirection.1, hbound.1⟩)

theorem typeArgument_proceeds (hrule : rule.Agree R room rule') (hc : c.Within R)
    (hroom : c.rest.length ≤ room) :
    Proceeds R c (Placed R) (typeArgument rule) (typeArgument rule') :=
  .ifCheck (fun _ => wildcard_proceeds hrule hc hroom) fun _ => (hrule .type c hc hroom).placed

theorem closeAngle_proceeds (hc : c.Within R) :
    Proceeds R c (fun _ _ => True) closeAngle closeAngle :=
  (Proceeds.skipGreater hc).bind fun _ _ hc₁ _ _ =>
    .ite (fun _ => .pure hc₁ trivial) fun _ => (Proceeds.expected _ hc₁).imp fun _ _ _ _ => trivial

theorem typeArguments_proceeds (hrule : rule.Agree R room rule') (hc : c.Within R)
    (hroom : c.rest.length ≤ room + 1) (hfront : (c.tokenAt 0).kind = Symbol.lt) :
    Proceeds R c (Placed R) (typeArguments rule) (typeArguments rule') := by
  refine .opening_bind hc hfront fun hstart c₁ hc₁ hlt => ?_
  refine (Proceeds.skipGreater hc₁).bind fun _ c₂ hc₂ hle₂ _ => ?_
  refine .ite (fun _ => .finish hc₂ hstart Node.withinAll_nil) fun _ => ?_
  refine (Proceeds.commaList (fun e he hle => typeArgument_proceeds hrule he (by omega)) hc₂).bind
    fun arguments c₃ hc₃ _ harguments => ?_
  refine (closeAngle_proceeds hc₃).bind fun _ c₄ hc₄ _ _ => ?_
  exact .finish hc₄ hstart harguments

/-- Type arguments if there are any. -/
theorem optionalTypeArguments_proceeds (hrule : rule.Agree R room rule') (hc : c.Within R)
    (hroom : c.rest.length ≤ room + 1) :
    Proceeds R c (PlacedAll R) (Parser.optional (Parser.check Symbol.lt) (typeArguments rule))
      (Parser.optional (Parser.check Symbol.lt) (typeArguments rule')) :=
  .optionalCheck hc fun hfront => typeArguments_proceeds hrule hc hroom hfront

theorem arrayBrackets_proceeds {element : Node} (hc : c.Within R) (helement : element.Within R) :
    Proceeds R c (Placed R) (arrayBrackets element) (arrayBrackets element) := by
  refine .loop (I := Node.Within R) (fun inner c₁ hinner hc₁ _ => ?_) helement hc
  refine .ifCheck2 (fun h₀ h₁ => ?_) (.pure hc₁ (by simp))
  refine .two_bind hc₁ (ne_eof_of_eq h₀) (ne_eof_of_eq h₁)
    fun c₂ hc₂ hlt => ?_
  exact .finish_some hc₂ hinner.start (by simpa using hinner) hlt

/-- A finished type with its array brackets. -/
theorem finishedType_proceeds {start : Position} {parts : List Node} {n : Nat} (hc : c.Within R)
    (hstart : R.place start) (hparts : Node.WithinAll R parts) (hlt : 2 ≤ n → c.rest.length < n) :
    Proceeds R c (Took R n) (do arrayBrackets (← Parser.finish .type start parts))
      (do arrayBrackets (← Parser.finish .type start parts)) := by
  refine (Proceeds.finish hc hstart hparts).bind fun finished c₁ hc₁ hle₁ hfinished => ?_
  exact (arrayBrackets_proceeds hc₁ hfinished).imp fun _ c₂ hle₂ h =>
    ⟨h, fun hn => by have := hlt hn; omega⟩

/-- An inner class with its type arguments, after a dot. -/
theorem innerTypes_proceeds (hrule : rule.Agree R room rule') {parts : List Node} (hc : c.Within R)
    (hroom : c.rest.length ≤ room + 1) (hparts : Node.WithinAll R parts) :
    Proceeds R c (fun o e => ∀ b ∈ o, Node.WithinAll R b ∧ e.rest.length < c.rest.length)
      (do
        if ← Parser.check2 Symbol.dot .identifier then
          let _ ← Parser.advance
          let inner ← qualifiedName
          let arguments ← Parser.optional (Parser.check Symbol.lt) (typeArguments rule)
          return some (parts ++ inner :: arguments)
        else return none)
      (do
        if ← Parser.check2 Symbol.dot .identifier then
          let _ ← Parser.advance
          let inner ← qualifiedName
          let arguments ← Parser.optional (Parser.check Symbol.lt) (typeArguments rule')
          return some (parts ++ inner :: arguments)
        else return none) := by
  refine .ifCheck2 (fun hdot _ => ?_) (.pure hc (by simp))
  refine (Proceeds.advance hc (ne_eof_of_eq hdot)).bind fun _ c₁ hc₁ _ htaken => ?_
  refine (qualifiedName_proceeds hc₁).bind fun inner c₂ hc₂ hle₂ hinner => ?_
  have hlt := htaken.2.1
  refine (optionalTypeArguments_proceeds hrule hc₂ (by omega)).bind
    fun arguments c₃ hc₃ hle₃ harguments => .pure hc₃ fun b hb => ?_
  cases hb
  exact ⟨by simpa using ⟨hparts, hinner.1, harguments⟩, by omega⟩

theorem type_proceeds (hrule : rule.Agree R room rule') (hc : c.Within R)
    (hroom : c.rest.length ≤ room + 1) :
    Proceeds R c (Took R c.rest.length) (type rule) (type rule') := by
  refine .here_bind hc fun hstart => ?_
  refine (annotations_proceeds hrule hc hroom).bind fun marks c₁ hc₁ hle₁ hmarks => ?_
  refine .kindAt_bind (.ite (fun hk => ?_) fun _ => .ite (fun hk => ?_) fun _ => ?_)
  · have hne : (c₁.tokenAt 0).kind ≠ .eof := by
      intro heof
      rw [heof] at hk
      cases hk
    refine (Proceeds.leaf hc₁ hne).bind fun word c₂ hc₂ _ hword => ?_
    have hlt := hword.2
    exact finishedType_proceeds hc₂ hstart (by simpa using ⟨hmarks.1, hword.1⟩) fun _ => by omega
  · have hlength : 2 ≤ c₁.rest.length :=
      hc₁.ne_eof_iff.1 (ne_eof_of_eq (beq_iff_eq.1 hk))
    refine (qualifiedName_proceeds hc₁).bind fun outer c₂ hc₂ _ houter => ?_
    have hlt := houter.2 hlength
    refine (optionalTypeArguments_proceeds hrule hc₂ (by omega)).bind
      fun arguments c₃ hc₃ hle₃ harguments => ?_
    refine (Proceeds.loop (I := Node.WithinAll R) (fun parts e hparts he hle => ?_)
      (Node.withinAll_cons.2 ⟨houter.1, harguments⟩) hc₃).bind fun parts c₄ hc₄ hle₄ hparts => ?_
    · exact innerTypes_proceeds hrule he (by omega) hparts
    · exact finishedType_proceeds hc₄ hstart (by simpa using ⟨hmarks.1, hparts⟩) fun _ => by omega
  · exact (Proceeds.problem _ _ _ hc₁).imp fun _ c₂ hle₂ h =>
      ⟨h.1, fun hn => by have := h.2; omega⟩

theorem typeList_proceeds (hrule : rule.Agree R room rule') (hc : c.Within R)
    (hroom : c.rest.length ≤ room + 1) :
    Proceeds R c (PlacedAll R) (typeList rule) (typeList rule') :=
  .commaList (fun _ he hle => (type_proceeds hrule he (by omega)).placed) hc

theorem typesAfter_proceeds (hrule : rule.Agree R room rule') (hc : c.Within R)
    (hroom : c.rest.length ≤ room + 1) (word : Keyword) :
    Proceeds R c (PlacedAll R) (typesAfter rule word) (typesAfter rule' word) :=
  .ifSkip hc (fun _ hc₁ _ => typeList_proceeds hrule hc₁ (by omega)) fun _ =>
    .pure hc Node.withinAll_nil

end Types

section Parameters

/-- A modifier is not the end of file. -/
theorem ne_eof_of_isModifier {kind next : TokenKind} (h : isModifier kind next = true) :
    kind ≠ .eof := by
  rintro rfl
  cases h

theorem modifiers_proceeds (hrule : rule.Agree R room rule') (hc : c.Within R)
    (hroom : c.rest.length ≤ room + 1) :
    Proceeds R c (Placed R) (modifiers rule) (modifiers rule') := by
  refine .here_bind hc fun hstart => ?_
  refine (Proceeds.manyWhile (fun _ => rfl) (fun e hyes => ?_) (fun e he hle hyes => ?_) hc).bind
    fun items c₁ hc₁ _ hitems => .finish hc₁ hstart hitems.1
  · exact ne_eof_of_isModifier hyes
  · refine .ifCheck (fun hfront => annotationUse_proceeds hrule he (by omega) hfront) fun _ => ?_
    exact .leaf_took he (ne_eof_of_isModifier hyes)

theorem bracketPairs_proceeds (hc : c.Within R) :
    Proceeds R c (fun _ _ => True) bracketPairs bracketPairs := by
  refine .loop (I := fun _ => True) (fun n c₁ _ hc₁ _ => ?_) trivial hc
  refine .ifCheck2 (fun h₀ h₁ => ?_) (.pure hc₁ (by simp))
  refine .two_bind hc₁ (ne_eof_of_eq h₀) (ne_eof_of_eq h₁)
    fun c₂ hc₂ hlt => .pure hc₂ fun _ _ => ⟨trivial, hlt⟩

/-- Brackets after declared names stay inside the region. -/
theorem inArrays_within (n : Nat) {t : Node} (h : t.Within R) : (inArrays n t).Within R := by
  induction n generalizing t with
  | zero => exact h
  | succ n ih =>
    rw [inArrays]
    split
    · exact ih (Node.within_mk h.span nofun (by simpa using h))
    · exact h

theorem parameter_proceeds (hrule : rule.Agree R room rule') (hc : c.Within R)
    (hroom : c.rest.length ≤ room + 1) :
    Proceeds R c (Took R c.rest.length) (parameter rule) (parameter rule') := by
  refine .here_bind hc fun hstart => ?_
  refine (modifiers_proceeds hrule hc hroom).bind fun marks c₁ hc₁ hle₁ hmarks => ?_
  refine (type_proceeds hrule hc₁ (by omega)).bind fun declared c₂ hc₂ hle₂ hdeclared => ?_
  refine (Proceeds.optionalLeaf hc₂).bind fun dots c₃ hc₃ hle₃ hdots => ?_
  refine (Proceeds.name hc₃).bind fun label c₄ hc₄ hle₄ hlabel => ?_
  refine (bracketPairs_proceeds hc₄).bind fun depth c₅ hc₅ hle₅ _ => ?_
  have htook := hdeclared.2
  refine .finish_took hc₅ hstart ?_ fun hn => by omega
  simpa using ⟨hmarks, inArrays_within depth hdeclared.1, hdots, hlabel.1⟩

theorem parameters_proceeds (hrule : rule.Agree R room rule') (hc : c.Within R)
    (hroom : c.rest.length ≤ room + 1) :
    Proceeds R c (Placed R) (parameters rule) (parameters rule') := by
  refine .here_bind hc fun hstart => .need_bind hc fun c₁ hc₁ hle₁ _ => ?_
  refine (Proceeds.commaListBefore (fun e he hle => parameter_proceeds hrule he (by omega)) hc₁).bind
    fun items c₂ hc₂ _ hitems => ?_
  exact .need_bind hc₂ fun c₃ hc₃ _ _ => .finish hc₃ hstart hitems

end Parameters

section Bracketed

/-- Where a list in brackets may begin: at its opening token, or with a token less ahead. -/
def Opens (room : Nat) (opening : TokenKind) (c : Cursor) : Prop :=
  c.rest.length ≤ room ∨ (c.tokenAt 0).kind = opening ∧ c.rest.length ≤ room + 1

variable {opening closing : TokenKind}

/-- A list between an opening and a closing token. -/
theorem bracketed_proceeds [opening.Inner] [closing.Inner] {kind : NodeKind}
    {items items' : Parser (List Node)} (hc : c.Within R) (hopen : Opens room opening c)
    (hitems : ∀ e, e.Within R → e.rest.length ≤ room → Proceeds R e (PlacedAll R) items items') :
    Proceeds R c (fun n e => n.Within R ∧
        ((c.tokenAt 0).kind = opening → e.rest.length < c.rest.length))
      (do
        let start ← Parser.here
        Parser.need opening
        let nodes ← items
        Parser.need closing
        Parser.finish kind start nodes)
      (do
        let start ← Parser.here
        Parser.need opening
        let nodes ← items'
        Parser.need closing
        Parser.finish kind start nodes) := by
  refine .here_bind hc fun hstart => .need_bind hc fun c₁ hc₁ hle₁ hlt₁ => ?_
  have hroom : c₁.rest.length ≤ room := by
    rcases hopen with hle | ⟨hfront, hle⟩
    · omega
    · have := hlt₁ hfront
      omega
  refine (hitems c₁ hc₁ hroom).bind fun nodes c₂ hc₂ hle₂ hnodes => ?_
  refine .need_bind hc₂ fun c₃ hc₃ hle₃ _ => ?_
  refine (Proceeds.finish hc₃ hstart hnodes).imp fun n c₄ hle₄ hn => ⟨hn, fun hfront => ?_⟩
  have := hlt₁ hfront
  omega

theorem arguments_proceeds (hrule : rule.Agree R room rule') (hc : c.Within R)
    (hopen : Opens room Symbol.lparen c) :
    Proceeds R c (fun n e => n.Within R ∧
      ((c.tokenAt 0).kind = Symbol.lparen → e.rest.length < c.rest.length))
      (arguments rule) (arguments rule') :=
  bracketed_proceeds hc hopen fun _ he hle =>
    .commaListBefore (fun e' he' hle' => hrule .expression e' he' (by omega)) he

theorem block_proceeds (hrule : rule.Agree R room rule') (hc : c.Within R)
    (hopen : Opens room Symbol.lbrace c) :
    Proceeds R c (fun n e => n.Within R ∧
      ((c.tokenAt 0).kind = Symbol.lbrace → e.rest.length < c.rest.length))
      (block rule) (block rule') :=
  bracketed_proceeds hc hopen fun _ he hle =>
    (Proceeds.manyBefore (fun e' he' hle' _ => hrule .statement e' he' (by omega)) he).imp
      fun _ _ _ h => h.1

theorem classBody_proceeds (hrule : rule.Agree R room rule') (hc : c.Within R)
    (hopen : Opens room Symbol.lbrace c) :
    Proceeds R c (Placed R) (classBody rule) (classBody rule') :=
  (bracketed_proceeds hc hopen fun _ he hle =>
    (Proceeds.manyBefore (fun e' he' hle' _ => hrule .member e' he' (by omega)) he).imp
      fun _ _ _ h => h.1).imp fun _ _ _ h => h.1

theorem arrayInitializer_proceeds (hrule : rule.Agree R room rule') (hc : c.Within R)
    (hopen : Opens room Symbol.lbrace c) :
    Proceeds R c (fun n e => n.Within R ∧
      ((c.tokenAt 0).kind = Symbol.lbrace → e.rest.length < c.rest.length))
      (arrayInitializer rule) (arrayInitializer rule') :=
  bracketed_proceeds hc hopen fun _ he hle =>
    .commaListBefore (fun e' he' hle' => hrule .initializer e' he' (by omega)) he

end Bracketed

section Lookaheads

/-- Skipping angle brackets stops at the end of file at the latest. -/
theorem skipAngles_endsFile (depth : Int) (consumed : List Token) {rest : List Token}
    (h : EndsFile rest) : EndsFile (skipAngles depth consumed rest).2 := by
  induction rest generalizing depth consumed with
  | nil => exact absurd rfl h.ne_nil
  | cons t rest ih =>
    rw [skipAngles]
    split
    · exact h
    · rename_i hstop
      split
      · exact h
      · exact ih _ _ (h.tail fun hk => hstop (.inr hk))

theorem skipTypeArguments_proceeds (hc : c.Within R) :
    Proceeds R c (fun _ _ => True) skipTypeArguments skipTypeArguments := by
  refine .ifSkip hc (fun c₁ hc₁ _ => ?_) fun _ => .pure hc trivial
  have htakes := pastAngles_takes c₁
  have hreads : c₁.Reads (pastAngles c₁) := .of_takes htakes (Nat.le_refl _)
  exact ⟨rfl, ⟨hreads, hc₁.of_takes htakes (skipAngles_endsFile 1 _ hc₁.ends) rfl rfl,
    htakes.missteps_eq, fun horder => horder.of_reads hreads rfl⟩, trivial⟩

theorem skipLocalModifiers_proceeds (hrule : rule.Agree R room rule') (hc : c.Within R)
    (hroom : c.rest.length ≤ room + 1) :
    Proceeds R c (fun _ _ => True) (skipLocalModifiers rule) (skipLocalModifiers rule') := by
  have hfront : ∀ e : Cursor, ((Parser.checkAny [Symbol.atSign, Keyword.finalKw]).run e).1 = true →
      (e.tokenAt 0).kind ≠ .eof := fun e hyes =>
    ne_eof_of_mem (Parser.mem_of_checkAny (Prod.ext hyes rfl)) (by decide)
  refine (Proceeds.manyWhile (fun _ => rfl) hfront (fun e he hle hyes => ?_) hc).bind
    fun _ c₁ hc₁ _ _ => .pure hc₁ trivial
  refine .ifCheck (fun hmark => annotationUse_proceeds hrule he (by omega) hmark) fun _ => ?_
  exact .leaf_took he (hfront e hyes)

theorem skipBrackets_proceeds (hc : c.Within R) :
    Proceeds R c (fun _ _ => True) skipBrackets skipBrackets :=
  (bracketPairs_proceeds hc).bind fun _ _ hc₁ _ _ => .pure hc₁ trivial

theorem skipClassName_proceeds (hc : c.Within R) :
    Proceeds R c (fun _ _ => True) skipClassName skipClassName := by
  refine (qualifiedName_proceeds hc).bind fun _ c₁ hc₁ _ _ => ?_
  refine .ifCheck (fun _ => ?_) fun _ => .pure hc₁ trivial
  refine (skipTypeArguments_proceeds hc₁).bind fun _ c₂ hc₂ _ _ => ?_
  have hfront : ∀ e : Cursor, ((Parser.check2 Symbol.dot .identifier).run e).1 = true →
      (e.tokenAt 0).kind ≠ .eof := fun e hyes =>
    ne_eof_of_eq (Parser.kinds_of_check2 (Prod.ext hyes rfl)).1
  refine (Proceeds.manyWhile (fun _ => rfl) hfront (fun e he _ hyes => ?_) hc₂).bind
    fun _ c₃ hc₃ _ _ => .pure hc₃ trivial
  refine (Proceeds.advance he (hfront e hyes)).bind fun _ e₁ he₁ _ htaken => ?_
  refine (qualifiedName_proceeds he₁).bind fun inner e₂ he₂ hle₂ hinner => ?_
  refine (skipTypeArguments_proceeds he₂).bind fun _ e₃ he₃ hle₃ _ => ?_
  exact .pure he₃ ⟨hinner.1, fun _ => by have := htaken.2.1; omega⟩

theorem startsLocalDeclaration_proceeds (hrule : rule.Agree R room rule') (hc : c.Within R)
    (hroom : c.rest.length ≤ room + 1) :
    Proceeds R c (fun _ e => e.rest.length = c.rest.length) (startsLocalDeclaration rule)
      (startsLocalDeclaration rule') := by
  refine .lookahead (T := fun _ _ => True) hc ?_
  refine (skipLocalModifiers_proceeds hrule hc hroom).bind fun _ c₁ hc₁ _ _ => .kindAt_bind ?_
  refine .ite (fun _ => .pure hc₁ trivial) fun _ => .ite (fun _ => ?_) fun _ => .ite (fun _ => ?_)
    fun _ => .pure hc₁ trivial
  · exact .kindAt_bind (.pure hc₁ trivial)
  · refine (skipClassName_proceeds hc₁).bind fun _ c₂ hc₂ _ _ => ?_
    exact (skipBrackets_proceeds hc₂).bind fun _ c₃ hc₃ _ _ => .glance rfl (.pure hc₃ trivial)

theorem variableAndColon_proceeds (hc : c.Within R) :
    Proceeds R c (fun _ _ => True) startsEnhancedFor.variableAndColon
      startsEnhancedFor.variableAndColon := by
  refine (Proceeds.loop (I := fun _ => True) (fun _ e _ he _ => ?_) trivial hc).bind
    fun _ c₁ hc₁ _ _ => ?_
  · refine .ifSkip he (fun e₁ he₁ hlt => ?_) fun _ => .pure he (by simp)
    exact (Proceeds.skip he₁).bind fun _ e₂ he₂ hle₂ _ =>
      .pure he₂ fun _ _ => ⟨trivial, by omega⟩
  · refine .ifCheckName (fun hname => ?_) fun _ => .pure hc₁ trivial
    exact (Proceeds.advance hc₁ (ne_eof_of_isName hname)).bind fun _ c₂ hc₂ _ _ =>
      .glance rfl (.pure hc₂ trivial)

theorem startsEnhancedFor_proceeds (hrule : rule.Agree R room rule') (hc : c.Within R)
    (hroom : c.rest.length ≤ room + 1) :
    Proceeds R c (fun _ e => e.rest.length = c.rest.length) (startsEnhancedFor rule)
      (startsEnhancedFor rule') := by
  refine .lookahead (T := fun _ _ => True) hc ?_
  refine (skipLocalModifiers_proceeds hrule hc hroom).bind fun _ c₁ hc₁ _ _ => .kindAt_bind ?_
  refine .ite (fun hk => ?_) fun _ => .ite (fun _ => ?_) fun _ => .pure hc₁ trivial
  · have hne : (c₁.tokenAt 0).kind ≠ .eof := by
      intro heof
      rw [heof] at hk
      cases hk
    exact (Proceeds.advance hc₁ hne).bind fun _ c₂ hc₂ _ _ => variableAndColon_proceeds hc₂
  · refine (qualifiedName_proceeds hc₁).bind fun _ c₂ hc₂ _ _ => ?_
    exact (skipTypeArguments_proceeds hc₂).bind fun _ c₃ hc₃ _ _ => variableAndColon_proceeds hc₃

/-- A cast begins with a parenthesis. -/
theorem lparen_of_startsCast (h : (startsCast.run c).1 = true) :
    (c.tokenAt 0).kind = Symbol.lparen := by
  by_contra hfront
  have hanswer : (startsCast.run c).1 = false := by
    change ((Parser.skip Symbol.lparen >>= fun b => if b = true then _ else _).run c).1 = false
    rw [Parser.ifSkip_run, if_neg hfront]
    rfl
  rw [h] at hanswer
  cases hanswer

end Lookaheads

end Grammar

end JavaObjC
