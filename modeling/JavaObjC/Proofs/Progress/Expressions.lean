import JavaObjC.Proofs.Progress.Phrases
import JavaObjC.Proofs.Reading.Expressions

/-!
# Expressions proceed

Operators, suffixes, creations and lambdas. An expression always takes a token
unless the end of file is next: its first operand does, and where no operand
can begin, the problem that is reported there takes one.
-/

namespace JavaObjC

open Cursor

namespace Grammar

variable {R : Region} {room : Nat} {rule rule' : Rules} {c : Cursor}

section Lambdas

theorem lambdaParameter_proceeds (hrule : rule.Agree R room rule') (hc : c.Within R)
    (hroom : c.rest.length ≤ room + 1) :
    Proceeds R c (Took R c.rest.length) (lambdaParameter rule) (lambdaParameter rule') := by
  refine .kindAt_bind (.glance rfl (.ite (fun h => ?_) fun _ => parameter_proceeds hrule hc hroom))
  rw [Bool.and_eq_true] at h
  exact .leaf_took hc (ne_eof_of_isName h.1)

/-- A lambda begins with a name or a parenthesis. -/
theorem front_of_startsLambda (h : (startsLambda.run c).1 = true) :
    (c.tokenAt 0).kind.isName = true ∨ (c.tokenAt 0).kind = Symbol.lparen := by
  by_contra hfront
  rw [not_or, Bool.not_eq_true] at hfront
  have hanswer : (startsLambda.run c).1 = false := by
    simp [startsLambda, Parser.checkName, Parser.kindAt, Parser.check, hfront.1, hfront.2]
    rfl
  rw [h] at hanswer
  cases hanswer

theorem lambdaHead_proceeds (hrule : rule.Agree R room rule') (hc : c.Within R)
    (hroom : c.rest.length ≤ room + 1)
    (hfront : (c.tokenAt 0).kind.isName = true ∨ (c.tokenAt 0).kind = Symbol.lparen) :
    Proceeds R c (fun n e => n.Within R ∧ e.rest.length < c.rest.length) (lambdaHead rule)
      (lambdaHead rule') := by
  refine .here_bind hc fun hstart => .ifCheckName (fun hname => ?_) fun hname => ?_
  · refine (Proceeds.leaf hc (ne_eof_of_isName hname)).bind fun only c₁ hc₁ _ honly => ?_
    have hlt := honly.2
    exact (Proceeds.finish hc₁ hstart (by simpa using honly.1)).imp fun _ c₂ hle₂ h =>
      ⟨h, by omega⟩
  · have hparen : (c.tokenAt 0).kind = Symbol.lparen := by
      rcases hfront with h | h
      · rw [hname] at h
        cases h
      · exact h
    refine .need_bind hc fun c₁ hc₁ hle₁ hlt₁ => ?_
    refine (Proceeds.commaListBefore
      (fun e he hle => lambdaParameter_proceeds hrule he (by omega)) hc₁).bind
      fun items c₂ hc₂ hle₂ hitems => ?_
    refine .need_bind hc₂ fun c₃ hc₃ hle₃ _ => ?_
    have hlt := hlt₁ hparen
    exact (Proceeds.finish hc₃ hstart hitems).imp fun _ c₄ hle₄ h => ⟨h, by omega⟩

theorem lambdaBody_proceeds (hrule : rule.Agree R room rule') (hc : c.Within R)
    (hroom : c.rest.length ≤ room) :
    Proceeds R c (Placed R) (lambdaBody rule) (lambdaBody rule') :=
  .ifCheck (fun _ => (block_proceeds hrule hc (.inl hroom)).imp fun _ _ _ h => h.1) fun _ =>
    (hrule .expression c hc hroom).placed

theorem lambda_proceeds (hrule : rule.Agree R room rule') (hc : c.Within R)
    (hroom : c.rest.length ≤ room + 1)
    (hfront : (c.tokenAt 0).kind.isName = true ∨ (c.tokenAt 0).kind = Symbol.lparen) :
    Proceeds R c (Took R c.rest.length) (lambda rule) (lambda rule') := by
  refine .here_bind hc fun hstart => ?_
  refine (lambdaHead_proceeds hrule hc hroom hfront).bind fun head c₁ hc₁ _ hhead => ?_
  have hlt := hhead.2
  refine .need_bind hc₁ fun c₂ hc₂ hle₂ _ => ?_
  refine (lambdaBody_proceeds hrule hc₂ (by omega)).bind fun body c₃ hc₃ hle₃ hbody => ?_
  exact .finish_took hc₃ hstart (by simpa using ⟨hhead.1, hbody⟩) fun _ => by omega

theorem lambdaOr_proceeds {other other' : Parser Node} (hrule : rule.Agree R room rule')
    (hc : c.Within R) (hroom : c.rest.length ≤ room + 1)
    (hother : Proceeds R c (Took R c.rest.length) other other') :
    Proceeds R c (Took R c.rest.length) (lambdaOr rule other) (lambdaOr rule' other') :=
  .ask startsLambda_stays (.ite
    (fun hyes => lambda_proceeds hrule hc hroom (front_of_startsLambda hyes)) fun _ => hother)

end Lambdas

section Creations

variable (hrule : rule.Agree R room rule')

include hrule

theorem dimensions_proceeds (hc : c.Within R) (hroom : c.rest.length ≤ room + 1) :
    Proceeds R c (fun (result : Nat × List Node) _ => Node.WithinAll R result.2) (dimensions rule)
    (dimensions rule') := by
  refine .loop (I := fun result : Nat × List Node => Node.WithinAll R result.2)
    (fun pair e hlengths he hle => ?_)
    Node.withinAll_nil hc
  obtain ⟨count, lengths⟩ := pair
  refine .ifSkip he (fun e₁ he₁ hlt => ?_) fun _ => .pure he (by simp)
  refine (Proceeds.optional (fun _ => rfl) he₁ fun _ =>
    (hrule .expression e₁ he₁ (by omega)).placed).bind fun length e₂ he₂ hle₂ hlength => ?_
  refine .need_bind he₂ fun e₃ he₃ hle₃ _ => .pure he₃ fun b hb => ?_
  cases hb
  exact ⟨by simpa using ⟨hlengths, hlength⟩, by omega⟩

theorem dropTypeArguments_proceeds (hc : c.Within R) (hroom : c.rest.length ≤ room + 1) :
    Proceeds R c (fun _ _ => True) (dropTypeArguments rule) (dropTypeArguments rule') := by
  refine .ifCheck (fun hfront => ?_) fun _ => .pure hc trivial
  refine (typeArguments_proceeds hrule hc hroom hfront).bind fun given c₁ hc₁ _ hgiven => ?_
  exact .discard hc₁ hgiven

/-- The body of a class in a creation, if there is one. -/
theorem optionalBody_proceeds (hc : c.Within R) (hroom : c.rest.length ≤ room) :
    Proceeds R c (PlacedAll R) (Parser.optional (Parser.check Symbol.lbrace) (classBody rule))
    (Parser.optional (Parser.check Symbol.lbrace) (classBody rule')) :=
  .optionalCheck hc fun _ => classBody_proceeds hrule hc (.inl hroom)

theorem creation_proceeds {start : Position} {created : Node} (hc : c.Within R)
    (hroom : c.rest.length ≤ room) (hstart : R.place start) (hcreated : created.Within R) :
    Proceeds R c (Placed R) (creation rule start created) (creation rule' start created) := by
  refine .ifCheck (fun _ => ?_) fun _ => ?_
  · refine (dimensions_proceeds hrule hc (by omega)).bind fun result c₁ hc₁ hle₁ hlengths => ?_
    obtain ⟨count, lengths⟩ := result
    refine (Proceeds.optionalCheck hc₁ fun _ => (arrayInitializer_proceeds hrule hc₁
      (.inl (by omega))).imp fun _ _ _ h => h.1).bind fun values c₂ hc₂ _ hvalues => ?_
    exact (Proceeds.finishWith hc₂ hstart (by nofun) (by simpa using ⟨hcreated, hlengths, hvalues⟩)).imp
      fun _ _ _ h => h.1
  · refine (arguments_proceeds hrule hc (.inl hroom)).bind fun given c₁ hc₁ hle₁ hgiven => ?_
    refine (optionalBody_proceeds hrule hc₁ (by omega)).bind fun body c₂ hc₂ _ hbody => ?_
    exact .finish hc₂ hstart (by simpa using ⟨hcreated, hgiven.1, hbody⟩)

theorem newExpr_proceeds (hc : c.Within R) (hroom : c.rest.length ≤ room + 1)
    (hfront : (c.tokenAt 0).kind = Keyword.newKw) :
    Proceeds R c (Took R c.rest.length) (newExpr rule) (newExpr rule') := by
  refine .opening_bind hc hfront fun hstart c₁ hc₁ hlt => ?_
  refine (dropTypeArguments_proceeds hrule hc₁ (by omega)).bind fun _ c₂ hc₂ hle₂ _ => ?_
  refine .here_bind hc₂ fun htype => .kindAt_bind ?_
  refine .ite (fun hk => ?_) fun _ => .ite (fun _ => ?_) fun _ => ?_
  · refine (Proceeds.leaf hc₂ (ne_eof_of_isPrimitive hk)).bind fun word c₃ hc₃ hle₃ hword => ?_
    refine (Proceeds.finish hc₃ htype (by simpa using hword.1)).bind
      fun created c₄ hc₄ hle₄ hcreated => ?_
    exact (creation_proceeds hrule hc₄ (by omega) hstart hcreated).imp fun _ c₅ hle₅ h =>
      ⟨h, fun _ => by omega⟩
  · refine (qualifiedName_proceeds hc₂).bind fun target c₃ hc₃ hle₃ htarget => ?_
    refine (optionalTypeArguments_proceeds hrule hc₃ (by omega)).bind
      fun given c₄ hc₄ hle₄ hgiven => ?_
    refine (Proceeds.finish hc₄ htype (Node.withinAll_cons.2 ⟨htarget.1, hgiven⟩)).bind
      fun created c₅ hc₅ hle₅ hcreated => ?_
    exact (creation_proceeds hrule hc₅ (by omega) hstart hcreated).imp fun _ c₆ hle₆ h =>
      ⟨h, fun _ => by omega⟩
  · exact (Proceeds.problem _ _ _ hc₂).imp fun _ c₃ hle₃ h => ⟨h.1, fun _ => by omega⟩

theorem innerNewExpr_proceeds {outer : Node} (hc : c.Within R) (hroom : c.rest.length ≤ room)
    (houter : outer.Within R) :
    Proceeds R c (Placed R) (innerNewExpr rule outer) (innerNewExpr rule' outer) := by
  refine .need_bind hc fun c₁ hc₁ hle₁ _ => ?_
  refine (dropTypeArguments_proceeds hrule hc₁ (by omega)).bind fun _ c₂ hc₂ hle₂ _ => ?_
  refine (Proceeds.name hc₂).bind fun label c₃ hc₃ hle₃ hlabel => ?_
  refine (optionalTypeArguments_proceeds hrule hc₃ (by omega)).bind
    fun typed c₄ hc₄ hle₄ htyped => ?_
  refine (arguments_proceeds hrule hc₄ (.inl (by omega))).bind fun given c₅ hc₅ hle₅ hgiven => ?_
  refine (optionalBody_proceeds hrule hc₅ (by omega)).bind fun body c₆ hc₆ _ hbody => ?_
  exact .finish hc₆ houter.start
    (by simpa using ⟨houter, hlabel.1, htyped, hgiven.1, hbody⟩)

end Creations

section Primaries

theorem primitiveClassLiteral_proceeds (hc : c.Within R) (hk : (c.tokenAt 0).kind ≠ .eof) :
    Proceeds R c (Took R c.rest.length) primitiveClassLiteral primitiveClassLiteral := by
  refine .here_bind hc fun hstart => ?_
  refine (Proceeds.leaf hc hk).bind fun word c₁ hc₁ _ hword => ?_
  have hlt := hword.2
  refine (Proceeds.finish hc₁ hstart (by simpa using hword.1)).bind
    fun element c₂ hc₂ hle₂ helement => ?_
  refine (Proceeds.loop (I := Node.Within R) (fun inner e hinner he _ => ?_) helement hc₂).bind
    fun target c₃ hc₃ hle₃ htarget => ?_
  · refine .ifSkip he (fun e₁ he₁ hlt₁ => ?_) fun _ => .pure he (by simp)
    refine .need_bind he₁ fun e₂ he₂ hle₂ _ => ?_
    exact .finish_some he₂ hinner.start (by simpa using hinner) (by omega)
  · refine .need_bind hc₃ fun c₄ hc₄ hle₄ _ => ?_
    refine .need_bind hc₄ fun c₅ hc₅ hle₅ _ => ?_
    exact .finish_took hc₅ hstart (by simpa using htarget) fun _ => by omega

theorem parenExpr_proceeds (hrule : rule.Agree R room rule') (hc : c.Within R)
    (hroom : c.rest.length ≤ room + 1) (hfront : (c.tokenAt 0).kind = Symbol.lparen) :
    Proceeds R c (Took R c.rest.length) (parenExpr rule) (parenExpr rule') := by
  refine .opening_bind hc hfront fun hstart c₁ hc₁ hlt => ?_
  refine (hrule .expression c₁ hc₁ (by omega)).bind fun inner c₂ hc₂ hle₂ hinner => ?_
  refine .need_bind hc₂ fun c₃ hc₃ hle₃ _ => ?_
  exact .finish_took hc₃ hstart (by simpa using hinner.1) fun _ => by omega

theorem primary_proceeds (hrule : rule.Agree R room rule') (hc : c.Within R)
    (hroom : c.rest.length ≤ room + 1) :
    Proceeds R c (Took R c.rest.length) (primary rule) (primary rule') := by
  refine .kindAt_bind (.ite (fun hk => ?_) fun _ => .ite (fun hk => ?_) fun _ =>
    .ite (fun hk => ?_) fun _ => .ite (fun hk => ?_) fun _ => .ite (fun hk => ?_) fun _ =>
    .ite (fun hk => ?_) fun _ => .ite (fun hk => ?_) fun _ => ?_)
  · have hliteral : (c.tokenAt 0).kind ∈ literalKinds := by simpa using hk
    exact .leaf_took hc (ne_eof_of_mem hliteral (by decide))
  · exact .leaf_took hc (ne_eof_of_eq (beq_iff_eq.1 hk))
  · exact .leaf_took hc (ne_eof_of_eq (beq_iff_eq.1 hk))
  · exact newExpr_proceeds hrule hc hroom (beq_iff_eq.1 hk)
  · exact parenExpr_proceeds hrule hc hroom (beq_iff_eq.1 hk)
  · refine primitiveClassLiteral_proceeds hc fun heof => ?_
    rw [heof] at hk
    cases hk
  · exact .leaf_took hc (ne_eof_of_isName hk)
  · exact .problem _ _ _ hc

end Primaries

section Suffixes

theorem callExpr_proceeds (hrule : rule.Agree R room rule') {target : Node} (hc : c.Within R)
    (hopen : Opens room Symbol.lparen c) (htarget : target.Within R) :
    Proceeds R c (fun n e => n.Within R ∧
      ((c.tokenAt 0).kind = Symbol.lparen → e.rest.length < c.rest.length))
      (callExpr rule target) (callExpr rule' target) := by
  refine (arguments_proceeds hrule hc hopen).bind fun given c₁ hc₁ _ hgiven => ?_
  refine (Proceeds.finish hc₁ htarget.start (by simpa using ⟨htarget, hgiven.1⟩)).imp
    fun _ c₂ hle₂ h => ⟨h, fun hfront => ?_⟩
  have := hgiven.2 hfront
  omega

theorem memberAccess_proceeds (hrule : rule.Agree R room rule') {target : Node} (hc : c.Within R)
    (hroom : c.rest.length ≤ room) (htarget : target.Within R) :
    Proceeds R c (Placed R) (memberAccess rule target) (memberAccess rule' target) := by
  refine .kindAt_bind (.ite (fun hk => ?_) fun _ => .ite (fun hk => ?_) fun _ =>
    .ite (fun hk => ?_) fun _ => .ite (fun hk => ?_) fun _ => .ite (fun hk => ?_) fun _ =>
    .ite (fun hk => ?_) fun _ => ?_)
  · exact innerNewExpr_proceeds hrule hc hroom htarget
  · refine (typeArguments_proceeds hrule hc (by omega) (beq_iff_eq.1 hk)).bind
      fun typed c₁ hc₁ hle₁ htyped => ?_
    refine (Proceeds.name hc₁).bind fun label c₂ hc₂ hle₂ hlabel => ?_
    refine (Proceeds.finish hc₂ htarget.start (by simpa using ⟨htarget, htyped, hlabel.1⟩)).bind
      fun access c₃ hc₃ hle₃ haccess => ?_
    refine .ifCheck (fun _ => ?_) fun _ => .pure hc₃ haccess
    exact (callExpr_proceeds hrule hc₃ (.inl (by omega)) haccess).imp fun _ _ _ h => h.1
  · refine (Proceeds.advance hc (ne_eof_of_eq (beq_iff_eq.1 hk))).bind
      fun _ c₁ hc₁ _ _ => ?_
    exact .finish hc₁ htarget.start (by simpa using htarget)
  · refine (Proceeds.leaf hc (ne_eof_of_eq (beq_iff_eq.1 hk))).bind
      fun word c₁ hc₁ _ hword => ?_
    exact .finish hc₁ htarget.start (by simpa using ⟨htarget, hword.1⟩)
  · refine (Proceeds.leaf hc (ne_eof_of_eq (beq_iff_eq.1 hk))).bind
      fun word c₁ hc₁ _ hword => ?_
    exact .finish hc₁ htarget.start (by simpa using ⟨htarget, hword.1⟩)
  · refine (Proceeds.leaf hc (ne_eof_of_isName hk)).bind fun label c₁ hc₁ _ hlabel => ?_
    exact .finish hc₁ htarget.start (by simpa using ⟨htarget, hlabel.1⟩)
  · exact (Proceeds.problem _ _ _ hc).placed

theorem referenceName_proceeds (hc : c.Within R) :
    Proceeds R c (PlacedAll R) referenceName referenceName := by
  refine .ifCheck (fun hfront => ?_) fun _ => (Proceeds.name hc).imp fun _ _ _ h => h.1
  refine (Proceeds.leaf hc (ne_eof_of_eq hfront)).bind fun word c₁ hc₁ _ hword => ?_
  exact .pure hc₁ (Node.withinAll_cons.2 ⟨hword.1, Node.withinAll_nil⟩)

theorem methodRef_proceeds (hrule : rule.Agree R room rule') {target : Node} (hc : c.Within R)
    (hroom : c.rest.length ≤ room + 1) (hfront : (c.tokenAt 0).kind = Symbol.colonColon)
    (htarget : target.Within R) :
    Proceeds R c (fun n e => n.Within R ∧ e.rest.length < c.rest.length) (methodRef rule target)
      (methodRef rule' target) := by
  refine .need_bind hc fun c₁ hc₁ _ hlt₁ => ?_
  have hlt := hlt₁ hfront
  refine (optionalTypeArguments_proceeds hrule hc₁ (by omega)).bind
    fun typed c₂ hc₂ hle₂ htyped => ?_
  refine (referenceName_proceeds hc₂).bind fun label c₃ hc₃ hle₃ hlabel => ?_
  exact (Proceeds.finish hc₃ htarget.start (by simpa using ⟨htarget, htyped, hlabel⟩)).imp
    fun _ c₄ hle₄ h => ⟨h, by omega⟩

theorem arrayClass_proceeds {target : Node} (hc : c.Within R) (htarget : target.Within R)
    (h₀ : (c.tokenAt 0).kind = Symbol.dot) (h₁ : (c.tokenAt 1).kind = Keyword.classKw) :
    Proceeds R c (fun n e => n.Within R ∧ e.rest.length < c.rest.length) (arrayClass target)
      (arrayClass target) := by
  refine .two_bind hc (ne_eof_of_eq h₀) (ne_eof_of_eq h₁)
    fun c₁ hc₁ hlt => ?_
  exact (Proceeds.finish hc₁ htarget.start (by simpa using htarget)).imp fun _ c₂ hle₂ h =>
    ⟨h, by omega⟩

theorem arrayClassLiteral_proceeds {element : Node} (hc : c.Within R)
    (helement : element.Within R) :
    Proceeds R c (fun o e => ∀ n ∈ o, n.Within R ∧ e.rest.length < c.rest.length)
      (arrayClassLiteral? element) (arrayClassLiteral? element) := by
  have hrun := arrayClassLiteral_run element c
  have hbrackets := arrayBrackets_proceeds hc helement
  by_cases hkinds : (((arrayBrackets element).run c).2.tokenAt 0).kind = .symbol .dot ∧
      (((arrayBrackets element).run c).2.tokenAt 1).kind = .keyword .classKw
  · rw [if_pos hkinds] at hrun
    have htarget : Proceeds R c
        (fun target e => target.Within R ∧ e = ((arrayBrackets element).run c).2)
        (arrayBrackets element) (arrayBrackets element) :=
      ⟨rfl, hbrackets.leads, hbrackets.result, rfl⟩
    refine .of_run (htarget.bind fun target c₁ hc₁ hle₁ htarget => ?_) hrun hrun
    obtain ⟨htarget, rfl⟩ := htarget
    refine (arrayClass_proceeds hc₁ htarget hkinds.1 hkinds.2).bind fun n c₂ hc₂ _ hn =>
      .pure hc₂ fun m hm => ?_
    cases hm
    exact ⟨hn.1, by omega⟩
  · rw [if_neg hkinds] at hrun
    have hnone : Proceeds R c
        (fun (o : Option Node) e => ∀ n ∈ o, n.Within R ∧ e.rest.length < c.rest.length)
        (pure none) (pure none) := .pure hc (by simp)
    exact hnone.of_run hrun hrun

theorem bracketsLiteral_proceeds {element : Node} (hc : c.Within R) (helement : element.Within R) :
    Proceeds R c (fun o e => (∀ n ∈ o, n.Within R ∧ e.rest.length < c.rest.length) ∧
      (o = none → e = c)) (bracketsLiteral? element) (bracketsLiteral? element) := by
  have hproceeds : Proceeds R c (fun o e => ∀ n ∈ o, n.Within R ∧ e.rest.length < c.rest.length)
      (bracketsLiteral? element) (bracketsLiteral? element) :=
    .kindAt_bind (.ite (fun _ => arrayClassLiteral_proceeds hc helement) fun _ =>
      .pure hc (by simp))
  exact ⟨rfl, hproceeds.leads, hproceeds.result, bracketsLiteral_stays⟩

theorem arrayAccess_proceeds (hrule : rule.Agree R room rule') {target : Node} (hc : c.Within R)
    (hroom : c.rest.length ≤ room + 1) (hk : (c.tokenAt 0).kind ≠ .eof)
    (htarget : target.Within R) :
    Proceeds R c (fun n e => n.Within R ∧ e.rest.length < c.rest.length) (arrayAccess rule target)
      (arrayAccess rule' target) := by
  refine (Proceeds.advance hc hk).bind fun _ c₁ hc₁ _ htaken => ?_
  have hlt := htaken.2.1
  refine (hrule .expression c₁ hc₁ (by omega)).bind fun index c₂ hc₂ hle₂ hindex => ?_
  refine .need_bind hc₂ fun c₃ hc₃ hle₃ _ => ?_
  exact (Proceeds.finish hc₃ htarget.start (by simpa using ⟨htarget, hindex.1⟩)).imp
    fun _ c₄ hle₄ h => ⟨h, by omega⟩

theorem bracketSuffix_proceeds (hrule : rule.Agree R room rule') {target : Node} (hc : c.Within R)
    (hroom : c.rest.length ≤ room + 1) (hk : (c.tokenAt 0).kind ≠ .eof)
    (htarget : target.Within R) :
    Proceeds R c (fun n e => n.Within R ∧ e.rest.length < c.rest.length) (bracketSuffix rule target)
      (bracketSuffix rule' target) := by
  refine (bracketsLiteral_proceeds hc htarget).bind fun o c₁ hc₁ _ ho => ?_
  cases o with
  | some n => exact .pure hc₁ (ho.1 n rfl)
  | none =>
    obtain rfl := ho.2 rfl
    exact arrayAccess_proceeds hrule hc hroom hk htarget

theorem postfixOperator_proceeds {target : Node} (hc : c.Within R) (htarget : target.Within R)
    (hk : (c.tokenAt 0).kind ≠ .eof) :
    Proceeds R c (fun o e => ∀ n ∈ o, n.Within R ∧ e.rest.length < c.rest.length)
      (do
        let operator ← Parser.leaf .identifier
        return some (← Parser.finish .postfixExpr target.span.start [target, operator]))
      (do
        let operator ← Parser.leaf .identifier
        return some (← Parser.finish .postfixExpr target.span.start [target, operator])) := by
  refine (Proceeds.leaf hc hk).bind fun operator c₁ hc₁ _ hoperator => ?_
  exact .finish_some hc₁ htarget.start (by simpa using ⟨htarget, hoperator.1⟩) hoperator.2

theorem suffix_proceeds (hrule : rule.Agree R room rule') {target : Node} (hc : c.Within R)
    (hroom : c.rest.length ≤ room + 1) (htarget : target.Within R) :
    Proceeds R c (fun o e => ∀ n ∈ o, n.Within R ∧ e.rest.length < c.rest.length)
      (suffix? rule target) (suffix? rule' target) := by
  refine .kindAt_bind ?_
  generalize hk : (c.tokenAt 0).kind = kind
  split
  · exact postfixOperator_proceeds hc htarget (ne_eof_of_eq hk)
  · exact postfixOperator_proceeds hc htarget (ne_eof_of_eq hk)
  · refine (Proceeds.advance hc (ne_eof_of_eq hk)).bind fun _ c₁ hc₁ _ htaken => ?_
    have hlt := htaken.2.1
    refine (memberAccess_proceeds hrule hc₁ (by omega) htarget).bind fun n c₂ hc₂ hle₂ hn =>
      .pure hc₂ fun m hm => ?_
    cases hm
    exact ⟨hn, by omega⟩
  · exact .some_of (bracketSuffix_proceeds hrule hc hroom (ne_eof_of_eq hk) htarget)
  · exact .some_of ((callExpr_proceeds hrule hc (.inr ⟨hk, hroom⟩) htarget).imp fun _ _ _ h =>
      ⟨h.1, h.2 hk⟩)
  · exact .some_of (methodRef_proceeds hrule hc hroom hk htarget)
  · exact .pure hc (by simp)

theorem postfixed_proceeds (hrule : rule.Agree R room rule') (hc : c.Within R)
    (hroom : c.rest.length ≤ room + 1) :
    Proceeds R c (Took R c.rest.length) (postfixed rule) (postfixed rule') := by
  refine (primary_proceeds hrule hc hroom).bind fun target c₁ hc₁ hle₁ htarget => ?_
  refine (Proceeds.loop (I := Node.Within R) (fun inner e hinner he hle => ?_) htarget.1 hc₁).imp
    fun n c₂ hle₂ hn => ⟨hn, fun h => by have := htarget.2 h; omega⟩
  exact suffix_proceeds hrule he (by omega) hinner

end Suffixes

section Operators

variable (hrule : rule.Agree R room rule')

include hrule

theorem typeGroup_proceeds {separator : TokenKind} [separator.Inner] (hc : c.Within R)
    (hroom : c.rest.length ≤ room + 1) :
    Proceeds R c (Placed R) (typeGroup rule separator) (typeGroup rule' separator) := by
  refine .here_bind hc fun hstart => ?_
  refine (type_proceeds hrule hc hroom).bind fun first c₁ hc₁ hle₁ hfirst => ?_
  refine (Proceeds.manyAfter (fun e he hlt => (type_proceeds hrule he (by omega)).placed) hc₁).bind
    fun more c₂ hc₂ _ hmore => ?_
  exact .finish hc₂ hstart (Node.withinAll_cons.2 ⟨hfirst.1, hmore⟩)

theorem castExpr_proceeds (hc : c.Within R) (hroom : c.rest.length ≤ room + 1)
    (hfront : (c.tokenAt 0).kind = Symbol.lparen) :
    Proceeds R c (Took R c.rest.length) (castExpr rule) (castExpr rule') := by
  refine .opening_bind hc hfront fun hstart c₁ hc₁ hlt => ?_
  refine (typeGroup_proceeds hrule hc₁ (by omega)).bind
    fun target c₂ hc₂ hle₂ htarget => ?_
  refine .need_bind hc₂ fun c₃ hc₃ hle₃ _ => ?_
  refine (lambdaOr_proceeds hrule hc₃ (by omega) (hrule .unary c₃ hc₃ (by omega))).bind
    fun operand c₄ hc₄ hle₄ hoperand => ?_
  exact .finish_took hc₄ hstart (by simpa using ⟨htarget, hoperand.1⟩) fun _ => by omega

theorem unary_proceeds (hc : c.Within R) (hroom : c.rest.length ≤ room + 1) :
    Proceeds R c (Took R c.rest.length) (unary rule) (unary rule') := by
  refine .here_bind hc fun hstart => .ifCheckAny (fun hmem => ?_) ?_
  · refine (Proceeds.leaf hc (ne_eof_of_mem hmem (by decide))).bind
      fun operator c₁ hc₁ _ hoperator => ?_
    have hlt := hoperator.2
    refine (hrule .unary c₁ hc₁ (by omega)).bind fun operand c₂ hc₂ hle₂ hoperand => ?_
    exact .finish_took hc₂ hstart (by simpa using ⟨hoperator.1, hoperand.1⟩) fun _ => by omega
  · refine .ask startsCast_stays (.ite (fun hyes => ?_) fun _ => postfixed_proceeds hrule hc hroom)
    exact castExpr_proceeds hrule hc hroom (lparen_of_startsCast hyes)

theorem binaryStep_proceeds {operators : List TokenKind} {operand operand' : Parser Node}
    {left : Node} (hc : c.Within R) (hroom : c.rest.length ≤ room + 1)
    (hoperators : TokenKind.eof ∉ operators)
    (hoperand : ∀ e, e.Within R → e.rest.length < c.rest.length → Proceeds R e (Placed R) operand operand')
    (hleft : left.Within R) :
    Proceeds R c (fun o e => ∀ n ∈ o, n.Within R ∧ e.rest.length < c.rest.length)
    (binaryStep? rule operators operand left) (binaryStep? rule' operators operand' left) := by
  refine .ifCheckAny (fun hmem => ?_) (.pure hc (by simp))
  refine .ifSkip hc (fun c₁ hc₁ hlt₁ => ?_) fun _ => ?_
  · refine (type_proceeds hrule hc₁ (by omega)).bind fun target c₂ hc₂ hle₂ htarget => ?_
    refine (Proceeds.optionalLeaf hc₂).bind fun binding c₃ hc₃ hle₃ hbinding => ?_
    exact .finish_some hc₃ hleft.start (by simpa using ⟨hleft, htarget.1, hbinding⟩) (by omega)
  · refine (Proceeds.leaf hc (ne_eof_of_mem hmem hoperators)).bind
      fun operator c₁ hc₁ _ hoperator => ?_
    have hlt := hoperator.2
    refine (hoperand c₁ hc₁ hlt).bind fun right c₂ hc₂ hle₂ hright => ?_
    exact .finish_some hc₂ hleft.start (by simpa using ⟨hleft, hoperator.1, hright⟩) (by omega)

theorem binary_proceeds (levels : List (List TokenKind))
    (hlevels : ∀ operators ∈ levels, TokenKind.eof ∉ operators) (hc : c.Within R)
    (hroom : c.rest.length ≤ room + 1) :
    Proceeds R c (Took R c.rest.length) (binary rule levels) (binary rule' levels) := by
  induction levels generalizing c with
  | nil => exact unary_proceeds hrule hc hroom
  | cons operators tighter ih =>
    obtain ⟨hoperators, htighter⟩ := List.forall_mem_cons.1 hlevels
    refine (ih htighter hc hroom).bind fun left c₁ hc₁ hle₁ hleft => ?_
    refine (Proceeds.loop (I := Node.Within R) (fun inner e hinner he hle => ?_) hleft.1 hc₁).imp
      fun n c₂ hle₂ hn => ⟨hn, fun h => by have := hleft.2 h; omega⟩
    refine binaryStep_proceeds hrule he (by omega) hoperators (fun e' he' hlt => ?_) hinner
    exact (ih htighter he' (by omega)).placed

theorem ternary_proceeds (hc : c.Within R) (hroom : c.rest.length ≤ room + 1) :
    Proceeds R c (Took R c.rest.length) (ternary rule) (ternary rule') := by
  refine (binary_proceeds hrule binaryLevels (by decide) hc hroom).bind
    fun condition c₁ hc₁ hle₁ hcondition => ?_
  have htook := hcondition.2
  refine .ifSkip hc₁ (fun c₂ hc₂ hlt₂ => ?_) fun _ => .pure hc₁ hcondition
  refine (hrule .expression c₂ hc₂ (by omega)).bind fun yes c₃ hc₃ hle₃ hyes => ?_
  refine .need_bind hc₃ fun c₄ hc₄ hle₄ _ => ?_
  refine (lambdaOr_proceeds hrule hc₄ (by omega) (hrule .ternary c₄ hc₄ (by omega))).bind
    fun no c₅ hc₅ hle₅ hno => ?_
  exact .finish_took hc₅ hcondition.1.start
    (by simpa using ⟨hcondition.1, hyes.1, hno.1⟩) fun _ => by omega

theorem expression_proceeds (hc : c.Within R) (hroom : c.rest.length ≤ room + 1) :
    Proceeds R c (Took R c.rest.length) (expression rule) (expression rule') := by
  refine lambdaOr_proceeds hrule hc hroom ?_
  refine (ternary_proceeds hrule hc hroom).bind fun left c₁ hc₁ hle₁ hleft => ?_
  refine .ifCheckAny (fun hmem => ?_) (.pure hc₁ hleft)
  refine (Proceeds.leaf hc₁ (ne_eof_of_mem hmem (by decide))).bind
    fun operator c₂ hc₂ _ hoperator => ?_
  have hlt := hoperator.2
  refine (hrule .expression c₂ hc₂ (by omega)).bind fun right c₃ hc₃ hle₃ hright => ?_
  exact .finish_took hc₃ hleft.1.start
    (by simpa using ⟨hleft.1, hoperator.1, hright.1⟩) fun _ => by omega

theorem initializer_proceeds (hc : c.Within R) (hroom : c.rest.length ≤ room + 1) :
    Proceeds R c (Took R c.rest.length) (initializer rule) (initializer rule') := by
  refine .ifCheck (fun hfront => ?_) fun _ => expression_proceeds hrule hc hroom
  exact (arrayInitializer_proceeds hrule hc (.inr ⟨hfront, hroom⟩)).imp fun _ _ _ h =>
    ⟨h.1, fun _ => h.2 hfront⟩

theorem annotationValue_proceeds (hc : c.Within R) (hroom : c.rest.length ≤ room + 1) :
    Proceeds R c (Took R c.rest.length) (annotationValue rule) (annotationValue rule') := by
  refine .ifCheck (fun hfront => annotationUse_proceeds hrule hc hroom hfront) fun _ => ?_
  refine .ifCheck (fun hfront => ?_) fun _ => ternary_proceeds hrule hc hroom
  refine .here_bind hc fun hstart => ?_
  refine (Proceeds.advance hc (ne_eof_of_eq hfront)).bind fun _ c₁ hc₁ _ htaken => ?_
  have hlt := htaken.2.1
  refine (Proceeds.commaListBefore (fun e he hle => hrule .annotationValue e he (by omega))
    hc₁).bind fun items c₂ hc₂ hle₂ hitems => ?_
  refine .need_bind hc₂ fun c₃ hc₃ hle₃ _ => ?_
  exact .finish_took hc₃ hstart hitems fun _ => by omega

end Operators

end Grammar

end JavaObjC
